import Drew.Hash.Fast
import Drew.Util.Format

/-!
# Checksum files

The model of `sum.c`. `process` computes the digest of a file, `print` writes a line with it, and `check` reads such
lines, computes the digests again and counts those that differ.

A line that was printed names the first word of the name, which is the name if there is no white space in it. The
comparison is of the whole arrays, of which only the first bytes are set if the digest is shorter (`roundTrips_iff`).
-/

namespace Drew.Sum

open Drew.Memory Drew.HashClass Drew.Stream Drew.Format

def MAX_DIGEST_BITS : Nat := 512

def CHUNK_SIZE : Nat := 8192

def PATH_MAX : Nat := 4096

/-- The size of the arrays `val` and `computed`. -/
abbrev digestMax : Nat := MAX_DIGEST_BITS / 8

/-- The size of the array `buf` of `check`. -/
abbrev lineSize : Nat := MAX_DIGEST_BITS / 8 * 2 + 2 + PATH_MAX + 2

/-- `MODE_TEXT` and `MODE_BINARY`. -/
inductive Mode where
  | text
  | binary
  deriving DecidableEq

/-- A file that is open: the bytes that can be read, and whether there is an error behind them. -/
structure File where
  content : List UInt8
  error : Bool
  deriving DecidableEq

/-- What `fopen` does. -/
abbrev Files := List UInt8 → Mode → Option File

/-! ## The digest of a file -/

/-- The calls of a loop that reads a file in pieces of `CHUNK_SIZE`. -/
def calls (content : List UInt8) : List Call :=
  (chunks CHUNK_SIZE (content.length / CHUNK_SIZE) content).map (Call.mk true) ++
    [⟨false, content.drop (content.length / CHUNK_SIZE * CHUNK_SIZE)⟩]

/-- `process`: nothing if something is undefined, and no digest if the file cannot be opened or read. -/
def process (K : HashClass) : Option File → Option (Option (List UInt8))
  | none => some none
  | some f => do
      let k := f.content.length / CHUNK_SIZE
      let s ← (chunks CHUNK_SIZE k f.content).foldlM K.updateFast K.reset
      let s ← K.update s (f.content.drop (k * CHUNK_SIZE))
      if f.error then return none
      return some (← K.getDigest s)

section Process

variable {K : HashClass} {content : List UInt8}

theorem foldlM_fast (bs : List (List UInt8)) (s : K.State) :
    (bs.map (Call.mk true)).foldlM K.step s = bs.foldlM K.updateFast s := by
  induction bs generalizing s with
  | nil => rfl
  | cons b bs ih =>
    rw [List.map_cons, List.foldlM_cons, List.foldlM_cons]
    exact congrArg _ (funext ih)

theorem foldlM_calls (K : HashClass) (content : List UInt8) :
    (calls content).foldlM K.step K.reset =
      ((chunks CHUNK_SIZE (content.length / CHUNK_SIZE) content).foldlM K.updateFast K.reset).bind fun s =>
        K.update s (content.drop (content.length / CHUNK_SIZE * CHUNK_SIZE)) := by
  have hlast : ∀ s, [(⟨false, content.drop (content.length / CHUNK_SIZE * CHUNK_SIZE)⟩ : Call)].foldlM K.step s =
      K.update s (content.drop (content.length / CHUNK_SIZE * CHUNK_SIZE)) := by
    intro s
    exact Option.bind_fun_some _
  rw [calls, List.foldlM_append, foldlM_fast]
  exact congrArg _ (funext hlast)

/-- A file that can be read has the digest of these calls. -/
theorem process_eq (K : HashClass) (content : List UInt8) :
    process K (some ⟨content, false⟩) = (K.digest (calls content)).map some := by
  rw [digest, foldlM_calls]
  unfold process
  simp only [Bool.false_eq_true, if_false, Option.bind_eq_bind, Option.bind_assoc, Option.map_eq_bind, pure]
  rfl

/-- An error makes no difference to what is defined. -/
theorem process_error {d : List UInt8} (h : K.digest (calls content) = some d) :
    process K (some ⟨content, true⟩) = some none := by
  rw [digest, foldlM_calls] at h
  obtain ⟨s, hs, -⟩ := Option.bind_eq_some_iff.mp h
  obtain ⟨t, ht, hs⟩ := Option.bind_eq_some_iff.mp hs
  simp only [process, ht, hs, Option.bind_eq_bind, Option.bind_some, if_true, pure]

theorem admissible_map {bs n k : Nat} (hbs : bs ∣ CHUNK_SIZE) (hn : n % bs = 0) (last : List UInt8)
    (hlast : last.length < CHUNK_SIZE) (xs : List UInt8) (hk : k * CHUNK_SIZE ≤ xs.length) :
    Admissible bs n ((chunks CHUNK_SIZE k xs).map (Call.mk true) ++ [⟨false, last⟩]) := by
  have hmax : CHUNK_SIZE < 2 ^ 63 := by decide
  induction k generalizing n xs with
  | zero => exact ⟨hlast.trans hmax, nofun, trivial⟩
  | succ k ih =>
    rw [Nat.succ_mul] at hk
    have hlen : (xs.take CHUNK_SIZE).length = CHUNK_SIZE := by
      rw [List.length_take]
      omega
    refine ⟨?_, fun _ => ⟨hn, ?_⟩, ?_⟩
    · show (xs.take CHUNK_SIZE).length < 2 ^ 63
      rw [hlen]
      exact hmax
    · show (xs.take CHUNK_SIZE).length % bs = 0
      rw [hlen]
      exact Nat.mod_eq_zero_of_dvd hbs
    · show Admissible bs (n + (xs.take CHUNK_SIZE).length) _
      rw [hlen]
      apply ih
      · rw [Nat.add_mod, hn, Nat.mod_eq_zero_of_dvd hbs, Nat.add_zero, Nat.zero_mod]
      · rw [List.length_drop]
        omega

/-- The fast calls have whole blocks if the size of a block divides that of a piece. -/
theorem admissible_calls {bs : Nat} (hbs : bs ∣ CHUNK_SIZE) (content : List UInt8) :
    Admissible bs 0 (calls content) := by
  have hpos : 0 < CHUNK_SIZE := by decide
  have hlast := Nat.mod_lt content.length hpos
  have hdiv := Nat.div_add_mod' content.length CHUNK_SIZE
  apply admissible_map hbs (Nat.zero_mod bs)
  · rw [List.length_drop]
    omega
  · omega

/-- The first call is a fast one if the file has a whole piece. -/
theorem fastFirst_calls_iff (content : List UInt8) :
    Skein.FastFirst false (calls content) ↔ content.length < CHUNK_SIZE := by
  by_cases h : content.length < CHUNK_SIZE
  · have hcalls : calls content = [⟨false, content⟩] := by
      rw [calls, Nat.div_eq_of_lt h, Nat.zero_mul, List.drop_zero]
      rfl
    rw [hcalls, Skein.FastFirst]
    refine iff_of_true ?_ h
    split
    · rfl
    · rw [if_neg Bool.false_ne_true]
      intro d hd
      cases hd
  · obtain ⟨k, hk⟩ : ∃ k, content.length / CHUNK_SIZE = k + 1 := by
      have hpos : 0 < content.length / CHUNK_SIZE := Nat.div_pos (not_lt.mp h) (by decide)
      exact ⟨content.length / CHUNK_SIZE - 1, by omega⟩
    have hlen : (content.take CHUNK_SIZE).length = CHUNK_SIZE := by
      rw [List.length_take]
      omega
    have hne : content.take CHUNK_SIZE ≠ [] := by
      intro hnil
      rw [hnil] at hlen
      exact absurd hlen (by decide)
    refine iff_of_false ?_ h
    rw [calls, hk, chunks, List.map_cons, List.cons_append, Skein.FastFirst, if_neg hne, if_pos rfl, hlen]
    exact fun hbad => absurd hbad.1 (by decide)

end Process

/-- For which files the digest is the one that plain calls give, for all classes with a name. -/
theorem process_digest_iff (name : HashName) (content : List UInt8) :
    (∀ K, name.Is K → process K (some ⟨content, false⟩) = (K.digest (plain (calls content))).map some) ↔
      (name = .skein → content.length < CHUNK_SIZE) := by
  have hmap : ∀ K : HashClass, process K (some ⟨content, false⟩) = (K.digest (plain (calls content))).map some ↔
      K.Agrees (calls content) := by
    intro K
    rw [process_eq, Agrees]
    exact (Option.map_injective (Option.some_injective _)).eq_iff
  simp only [hmap]
  constructor
  · rintro hagrees rfl
    rw [← fastFirst_calls_iff]
    apply (Skein.agrees_iff (admissible_calls (by decide) content)).mp
    intro σ ubi copy s
    exact hagrees (Skein.hashClass ubi copy s) ⟨σ, ubi, copy, s, rfl⟩
  · intro hshort K hK
    have htemplate : ∀ P : Hash.Params, P.blkSize ∣ CHUNK_SIZE → HashName.IsTemplate P K →
        K.Agrees (calls content) := by
      rintro P hP hT
      refine HashName.IsTemplate.agrees hT ?_
      obtain ⟨σ, f, digest, s, rfl⟩ := hT
      exact admissible_calls hP content
    cases name with
    | blake224 | blake256 | blake384 | blake512 => exact HashName.IsBlake.agrees hK
    | blake2b => exact HashName.IsBlake2b.agrees hK
    | groestl =>
      refine HashName.IsGroestl.agrees hK ?_
      obtain ⟨σ, f, long, copy, s, rfl⟩ := hK
      have hsize : ∀ long, Groestl.blockSize long ∣ CHUNK_SIZE := by decide
      exact admissible_calls (hsize long) content
    | keccak =>
      obtain ⟨size, -, -, hK⟩ := hK
      exact hK.agrees
    | sha3224 | sha3256 | sha3384 | sha3512 => exact HashName.IsKeccak.agrees hK
    | skein => exact HashName.IsSkein.agrees hK ((fastFirst_calls_iff content).mpr (hshort rfl))
    | fugue224 | fugue256 | fugue384 | fugue512 => exact htemplate .fugue (by decide) hK
    | md2 => exact htemplate .md2 (by decide) hK
    | jh | tiger | whirlpool => exact htemplate .tiger (by decide) hK
    | sha384 | sha512 | sha512t => exact htemplate .words64 (by decide) hK
    | md4 | md5 | rmd128 | rmd160 | rmd256 | rmd320 | sha0 | sha1 | sha224 | sha256 =>
      exact htemplate .words32 (by decide) hK

/-! ## Lines -/

/-- The plugin that was found for a name, and the size of its digests. -/
structure Algo where
  hash : HashClass
  digestSize : Nat
  digestSize_pos : 0 < digestSize
  digestSize_le : digestSize ≤ digestMax
  digests : ∀ content, ∃ d, hash.digest (calls content) = some d ∧ d.length = digestSize

/-- The line that `print` writes for the first bytes of a buffer. -/
def printLine (digest : List UInt8) (name : Option (List UInt8)) (mode : Mode) : List UInt8 :=
  digest.flatMap hexByte ++ [0x20, if mode = .binary then 0x2a else 0x20] ++ name.getD [0x2d] ++ [0x0a]

/-- What the calls of `fgets` give, one after the other, for an array of `n` characters. -/
def fgetsAll (n : Nat) : List UInt8 → List UInt8 → List (List UInt8)
  | line, [] => if line = [] then [] else [line]
  | line, c :: cs =>
      if c = 0x0a ∨ line.length + 1 = n - 1 then (line ++ [c]) :: fgetsAll n [] cs
      else fgetsAll n (line ++ [c]) cs

/-- The loop over the digits of the digest: nothing if it reads outside of the array, and no digest if there is
something else than digits. -/
def scanDigest (buf : Buf UInt8 lineSize) : Nat → Nat → Buf UInt8 digestMax → Option (Option (Buf UInt8 digestMax))
  | 0, _, val => some (some val)
  | n + 1, i, val => do
      let s ← cString buf (2 * i)
      match scanHex 2 s with
      | .eof => scanDigest buf n (i + 1) val
      | .mismatch => return none
      | .ok x _ =>
          let val ← val.store i (UInt8.ofInt x)
          scanDigest buf n (i + 1) val

/-- The conversions `%c%c%s`. -/
def scanRest (s : List UInt8) : Option (UInt8 × UInt8 × List UInt8) :=
  match scanChar s with
  | .ok dummy s =>
      match scanChar s with
      | .ok type s =>
          match scanWord none s with
          | .ok fnbuf _ => some (dummy, type, fnbuf)
          | _ => none
      | _ => none
  | _ => none

def modeOf (type : UInt8) : Option Mode :=
  if type = 0x20 then some .text else if type = 0x2a then some .binary else none

/-- A file that is to be read, and the array it is compared with. -/
structure Request where
  name : List UInt8
  mode : Mode
  val : Buf UInt8 digestMax

/-- What `check` makes of a line without the newline. -/
def parseLine (digestSize : Nat) (buf : Buf UInt8 lineSize) (val : Buf UInt8 digestMax) :
    Option (Option Request) := do
  match ← scanDigest buf digestSize 0 val with
  | none => return none
  | some val =>
      let s ← cString buf (2 * digestSize)
      match scanRest s with
      | none => return none
      | some (dummy, type, fnbuf) =>
          if dummy ≠ 0x20 then return none
          return (modeOf type).map fun mode => ⟨fnbuf, mode, val⟩

/-- The comparison, and what is printed: the name and whether it is OK. -/
def verify (A : Algo) (files : Files) (computed : Buf UInt8 digestMax) (r : Request) :
    Option (Option (List UInt8 × Bool)) := do
  match ← process A.hash (files r.name r.mode) with
  | none => return none
  | some d =>
      let computed ← computed.write 0 d
      return some (r.name, decide (computed = r.val))

/-- The arrays of the body of the loop, as the stack has them. -/
structure Stack where
  val : Buf UInt8 digestMax
  computed : Buf UInt8 digestMax

/-- The body of the loop of `check`. An empty string has no last character. -/
def checkLine (A : Algo) (files : Files) (stack : Stack) (buf : Buf UInt8 lineSize) :
    Option (Buf UInt8 lineSize × Option (List UInt8 × Bool)) := do
  let line ← cString buf 0
  if line = [] then none
  if line.getLast? ≠ some 0x0a then return (buf, none)
  let buf ← buf.store (line.length - 1) 0
  match ← parseLine A.digestSize buf stack.val with
  | none => return (buf, none)
  | some r => return (buf, ← verify A files stack.computed r)

/-- The loop of `check`. Each time the stack has what it has. -/
def checkLoop (A : Algo) (files : Files) (frames : Nat → Stack) :
    Nat → Buf UInt8 lineSize → List (List UInt8) → Option (List (List UInt8 × Bool))
  | _, _, [] => some []
  | k, buf, line :: lines => do
      let buf ← buf.write 0 (line ++ [0])
      let (buf, report) ← checkLine A files (frames k) buf
      let reports ← checkLoop A files frames (k + 1) buf lines
      return report.toList ++ reports

/-- The number of files that were `FAILED`. -/
def failures (reports : List (List UInt8 × Bool)) : Nat := reports.countP fun r => !r.2

/-- `check`: what is printed, and the number of errors. It is an `int`, which cannot be counted up at its end. -/
def check (A : Algo) (files : Files) (frames : Nat → Stack) (buf : Buf UInt8 lineSize) (content : List UInt8) :
    Option (List (List UInt8 × Bool) × Nat) := do
  let reports ← checkLoop A files frames 0 buf (fgetsAll lineSize [] content)
  if failures reports < 2 ^ 31 then return (reports, failures reports)
  none

/-! ## What is printed is read -/

/-- What a line is printed from. -/
structure Entry where
  digest : List UInt8
  mode : Mode
  name : List UInt8

/-- The line without the newline. -/
def Entry.text (e : Entry) : List UInt8 :=
  e.digest.flatMap hexByte ++ (0x20 :: (if e.mode = .binary then 0x2a else 0x20) :: e.name)

def Entry.line (e : Entry) : List UInt8 := printLine e.digest (some e.name) e.mode

/-- The name is one of a file that has a line of its own. -/
structure Entry.Fits (A : Algo) (e : Entry) : Prop where
  digest : e.digest.length = A.digestSize
  zero : 0 ∉ e.name
  newline : 0x0a ∉ e.name
  short : e.name.length < PATH_MAX

/-- The digest of a file, if it can be opened and read. -/
def digestOf (A : Algo) : Option File → Option (List UInt8)
  | some ⟨content, false⟩ => A.hash.digest (calls content)
  | _ => none

/-- What is printed for a line. -/
def Entry.report (A : Algo) (files : Files) (stack : Stack) (e : Entry) : Option (List UInt8 × Bool) :=
  if skipSpace e.name = [] then none
  else (digestOf A (files (firstWord e.name) e.mode)).map fun d =>
    (firstWord e.name,
      decide (d ++ stack.computed.toList.drop A.digestSize = e.digest ++ stack.val.toList.drop A.digestSize))

section Printed

variable {A : Algo} {files : Files} {e : Entry}

theorem Entry.line_eq (e : Entry) : e.line = e.text ++ [0x0a] := by
  simp only [line, printLine, text, Option.getD_some, List.append_assoc, List.cons_append, List.nil_append]

theorem process_eq_digestOf (A : Algo) (f : Option File) : process A.hash f = some (digestOf A f) := by
  match f with
  | none => rfl
  | some ⟨content, false⟩ =>
    obtain ⟨d, hd, -⟩ := A.digests content
    rw [process_eq, digestOf, hd, Option.map_some]
  | some ⟨content, true⟩ =>
    obtain ⟨d, hd, -⟩ := A.digests content
    rw [process_error hd]
    rfl

theorem length_digestOf {f : Option File} {d : List UInt8} (h : digestOf A f = some d) : d.length = A.digestSize := by
  match f with
  | none => cases h
  | some ⟨content, false⟩ =>
    obtain ⟨d', hd', hlen⟩ := A.digests content
    obtain rfl := Option.some.inj (hd'.symm.trans h)
    exact hlen
  | some ⟨content, true⟩ => cases h

/-- The characters that are not in the text of a digest. -/
theorem not_mem_hexBytes {c : UInt8} (hc : hexDigit? c = none) (ds : List UInt8) : c ∉ ds.flatMap hexByte := by
  intro hmem
  obtain ⟨b, -, hmem⟩ := List.mem_flatMap.mp hmem
  have hb := b.toNat_lt
  have hhi : hexDigit? (digitChar (b.toNat / 16)) = some (b.toNat / 16) := hexDigit?_digitChar (by omega)
  have hlo : hexDigit? (digitChar (b.toNat % 16)) = some (b.toNat % 16) := hexDigit?_digitChar (by omega)
  rcases List.mem_cons.mp hmem with rfl | hmem
  · rw [hc] at hhi
    cases hhi
  · rw [List.mem_singleton.mp hmem, hlo] at hc
    cases hc

theorem length_hexBytes (ds : List UInt8) : (ds.flatMap hexByte).length = 2 * ds.length := by
  induction ds with
  | nil => rfl
  | cons d ds ih =>
    rw [List.flatMap_cons, List.length_append, ih, length_hexByte, List.length_cons]
    omega

theorem not_mem_text {c : UInt8} (hc : hexDigit? c = none) (hspace : c ≠ 0x20) (hstar : c ≠ 0x2a)
    (hname : c ∉ e.name) : c ∉ e.text := by
  rw [Entry.text, List.mem_append, List.mem_cons, List.mem_cons, not_or, not_or, not_or]
  refine ⟨not_mem_hexBytes hc _, hspace, ?_, hname⟩
  split
  · exact hstar
  · exact hspace

/-- A line fits in the array, with the newline and the zero. -/
theorem Entry.Fits.length_lt (h : e.Fits A) : e.text.length + 2 < lineSize := by
  have hdigest := h.digest
  have hle := A.digestSize_le
  have hshort := h.short
  rw [Entry.text, List.length_append, length_hexBytes, List.length_cons, List.length_cons]
  unfold digestMax MAX_DIGEST_BITS at hle
  unfold PATH_MAX at hshort
  unfold lineSize MAX_DIGEST_BITS PATH_MAX
  omega

/-! ### Reading lines -/

/-- A line that is not too long comes as it is. -/
theorem fgetsAll_line {n : Nat} {s : List UInt8} (hs : 0x0a ∉ s) (acc rest : List UInt8)
    (hfit : acc.length + s.length + 1 < n) :
    fgetsAll n acc (s ++ 0x0a :: rest) = (acc ++ s ++ [0x0a]) :: fgetsAll n [] rest := by
  induction s generalizing acc with
  | nil => rw [List.nil_append, fgetsAll, if_pos (Or.inl rfl), List.append_nil]
  | cons c cs ih =>
    rw [List.length_cons] at hfit
    have hc : ¬ (c = 0x0a ∨ acc.length + 1 = n - 1) := by
      rintro (rfl | hlen)
      · exact hs List.mem_cons_self
      · omega
    rw [List.cons_append, fgetsAll, if_neg hc, ih (fun h => hs (List.mem_cons_of_mem c h)),
      List.append_assoc acc [c], List.singleton_append]
    rw [List.length_append, List.length_singleton]
    omega

theorem fgetsAll_lines {entries : List Entry} (h : ∀ e ∈ entries, e.Fits A) :
    fgetsAll lineSize [] (entries.flatMap Entry.line) = entries.map Entry.line := by
  induction entries with
  | nil => rfl
  | cons e es ih =>
    have he := h e List.mem_cons_self
    have hlen := he.length_lt
    have hnl : 0x0a ∉ e.text := not_mem_text (by decide) (by decide) (by decide) he.newline
    rw [List.flatMap_cons, List.map_cons, ← ih fun x hx => h x (List.mem_cons_of_mem e hx), Entry.line_eq,
      List.append_assoc, List.singleton_append, fgetsAll_line hnl [] _ (by rw [List.length_nil]; omega),
      List.nil_append]

/-! ### Reading a line -/

theorem store_write {n i : Nat} {v : Buf UInt8 n} (x : UInt8) (xs : List UInt8) :
    v.write i (x :: xs) = (v.store i x).bind fun v => v.write (i + 1) xs := by
  by_cases hfit : i + xs.length + 1 ≤ n
  · obtain ⟨w, hw⟩ := Buf.exists_write_at v i (x :: xs) hfit
    obtain ⟨w', hw'⟩ := Buf.exists_write_at (v.set i x (by omega)) (i + 1) xs (by omega)
    rw [Buf.store_of_lt v x (show i < n by omega), Option.bind_some, hw, hw', Option.some.injEq]
    apply Vector.ext
    intro j hj
    have hget := Buf.getElem?_write hw j
    have hget' := Buf.getElem?_write hw' j
    rw [Vector.getElem?_eq_getElem hj] at hget hget'
    rw [← Option.some.injEq, hget, hget', List.length_cons, Vector.getElem?_set]
    grind
  · rw [Buf.write, dif_neg (by rw [List.length_cons]; omega)]
    cases h : v.store i x with
    | none => rfl
    | some w => rw [Option.bind_some, Buf.write, dif_neg (by omega)]

theorem ofInt_toNat (b : UInt8) : UInt8.ofInt (b.toNat : Int) = b := by
  have hb := b.toNat_lt
  have hmod : ((b.toNat : Int) % 2 ^ 8).toNat = b.toNat := by omega
  rw [UInt8.ofInt, hmod, UInt8.ofNat_toNat]

/-- The digits of a digest are read into the array. -/
theorem scanDigest_spec {buf : Buf UInt8 lineSize} {tail : List UInt8} (htail : 0 ∉ tail) (ds : List UInt8) (i : Nat)
    (val : Buf UInt8 digestMax) (hfit : i + ds.length ≤ digestMax)
    (hbuf : buf.Holds (2 * i) (ds.flatMap hexByte ++ tail ++ [0])) :
    scanDigest buf ds.length i val = (val.write i ds).map some := by
  induction ds generalizing i val with
  | nil =>
    rw [Buf.write_nil val (by rw [List.length_nil] at hfit; exact hfit)]
    rfl
  | cons d ds ih =>
    rw [List.length_cons] at hfit
    have hzero : 0 ∉ (d :: ds).flatMap hexByte ++ tail := by
      rw [List.mem_append, not_or]
      exact ⟨not_mem_hexBytes (by decide) _, htail⟩
    have hstr := cString_of_holds hbuf hzero
    have hrest : buf.Holds (2 * (i + 1)) (ds.flatMap hexByte ++ tail ++ [0]) := by
      have hsplit : (d :: ds).flatMap hexByte ++ tail ++ [0] = hexByte d ++ (ds.flatMap hexByte ++ tail ++ [0]) := by
        rw [List.flatMap_cons, List.append_assoc, List.append_assoc, List.append_assoc]
      rw [hsplit] at hbuf
      exact hbuf.right
    rw [List.length_cons, scanDigest, hstr, store_write, Buf.store_of_lt val d (show i < digestMax by omega)]
    simp only [List.flatMap_cons, List.append_assoc, scanHex_hexByte, ofInt_toNat, Option.bind_eq_bind,
      Option.bind_some, Buf.store_of_lt val d (show i < digestMax by omega)]
    exact ih (i + 1) _ (by omega) hrest

/-- What is behind the digits. -/
theorem scanRest_spec (e : Entry) :
    scanRest (0x20 :: (if e.mode = .binary then 0x2a else 0x20) :: e.name) =
      if skipSpace e.name = [] then none
      else some (0x20, if e.mode = .binary then 0x2a else 0x20, firstWord e.name) := by
  simp only [scanRest, scanChar, scanWord_none]
  by_cases h : skipSpace e.name = []
  · simp only [if_pos h]
  · simp only [if_neg h]

theorem modeOf_mode (mode : Mode) : modeOf (if mode = .binary then 0x2a else 0x20) = some mode := by
  cases mode <;> rfl

/-- The comparison is that of the whole arrays. -/
theorem verify_spec {computed val val' : Buf UInt8 digestMax} {ds name : List UInt8} {mode : Mode}
    (hds : ds.length = A.digestSize) (hval : val.write 0 ds = some val') :
    verify A files computed ⟨name, mode, val'⟩ = some ((digestOf A (files name mode)).map fun d =>
      (name, decide (d ++ computed.toList.drop A.digestSize = ds ++ val.toList.drop A.digestSize))) := by
  unfold verify
  simp only [process_eq_digestOf, Option.bind_eq_bind, Option.bind_some]
  cases hd : digestOf A (files name mode) with
  | none => rfl
  | some d =>
    have hlen := length_digestOf hd
    have hle := A.digestSize_le
    obtain ⟨w, hw⟩ := Buf.exists_write_at computed 0 d (by omega)
    have hlist : ∀ {v v' : Buf UInt8 digestMax} {xs : List UInt8}, xs.length = A.digestSize → v.write 0 xs = some v' →
        v'.toList = xs ++ v.toList.drop A.digestSize := by
      intro v v' xs hxs h
      unfold Buf.write at h
      split at h
      · cases h
        simp [hxs]
      · cases h
    simp only [hw, Option.bind_some, Option.map_some, pure, Option.some.injEq, Prod.mk.injEq, true_and,
      decide_eq_decide]
    rw [← hlist hlen hw, ← hlist hds hval, Vector.toList_inj]

/-- A line that was printed is read, whatever was in the array before. -/
theorem checkLine_spec (files : Files) (h : e.Fits A) (stack : Stack) {buf : Buf UInt8 lineSize}
    (hbuf : buf.Holds 0 (e.line ++ [0])) :
    ∃ buf', checkLine A files stack buf = some (buf', e.report A files stack) := by
  have hle := A.digestSize_le
  have hdigest := h.digest
  have hzero : 0 ∉ e.text := not_mem_text (by decide) (by decide) (by decide) h.zero
  have hlen := h.length_lt
  have hline : 0 ∉ e.line := by
    rw [Entry.line_eq, List.mem_append, List.mem_singleton, not_or]
    exact ⟨hzero, by decide⟩
  have hlast : e.line.getLast? = some 0x0a := by rw [Entry.line_eq, List.getLast?_append]; rfl
  have hne : e.line ≠ [] := by
    rw [Entry.line_eq]
    exact List.append_ne_nil_of_right_ne_nil _ (List.cons_ne_nil _ _)
  have hpos : e.line.length - 1 = e.text.length := by
    rw [Entry.line_eq, List.length_append, List.length_singleton, Nat.add_sub_cancel]
  -- The newline becomes the end of the string.
  have hcut : Buf.Holds (buf.set e.text.length 0 (by omega)) 0 (e.text ++ [0]) := by
    have hfront : buf.Holds 0 e.text := by
      rw [Entry.line_eq, List.append_assoc] at hbuf
      exact hbuf.left
    exact hfront.snoc 0 (by omega) (Nat.zero_add _).symm
  obtain ⟨val', hval'⟩ := Buf.exists_write_at stack.val 0 e.digest (by omega)
  have htext : e.text ++ [0] = e.digest.flatMap hexByte ++
      (0x20 :: (if e.mode = .binary then 0x2a else 0x20) :: e.name) ++ [0] := rfl
  have htail : 0 ∉ (0x20 :: (if e.mode = .binary then 0x2a else 0x20) :: e.name) := fun hmem =>
    hzero (List.mem_append_right _ hmem)
  have hscan := scanDigest_spec htail e.digest 0 stack.val (by omega) (htext ▸ hcut)
  have hrest : cString (buf.set e.text.length 0 (by omega)) (2 * A.digestSize) =
      some (0x20 :: (if e.mode = .binary then 0x2a else 0x20) :: e.name) := by
    rw [htext, List.append_assoc] at hcut
    have hright := hcut.right
    rw [length_hexBytes, hdigest, Nat.zero_add] at hright
    exact cString_of_holds hright htail
  rw [hdigest, hval', Option.map_some] at hscan
  have hstore := Buf.store_of_lt buf (0 : UInt8) (show e.text.length < lineSize by omega)
  refine ⟨buf.set e.text.length 0 (by omega), ?_⟩
  unfold checkLine parseLine
  simp only [cString_of_holds hbuf hline, if_neg hne, hlast, ne_eq, not_true_eq_false, if_false, hpos, hstore, hscan,
    hrest, scanRest_spec, Option.bind_eq_bind, Option.bind_some, Entry.report]
  by_cases hskip : skipSpace e.name = []
  · simp only [if_pos hskip, Option.bind_some, pure]
  · simp only [if_neg hskip, not_true_eq_false, if_false, modeOf_mode, Option.map_some, Option.bind_some, pure,
      verify_spec hdigest hval']

/-! ### Reading a whole file -/

/-- What is printed for the lines from the `k`-th on. -/
def reportsFrom (A : Algo) (files : Files) (frames : Nat → Stack) : Nat → List Entry → List (List UInt8 × Bool)
  | _, [] => []
  | k, e :: es => (e.report A files (frames k)).toList ++ reportsFrom A files frames (k + 1) es

theorem checkLoop_spec (frames : Nat → Stack) {entries : List Entry} (h : ∀ e ∈ entries, e.Fits A) (k : Nat)
    (buf : Buf UInt8 lineSize) :
    checkLoop A files frames k buf (entries.map Entry.line) = some (reportsFrom A files frames k entries) := by
  induction entries generalizing k buf with
  | nil => rfl
  | cons e es ih =>
    have he := h e List.mem_cons_self
    have hlen := he.length_lt
    obtain ⟨buf₁, hwrite⟩ := Buf.exists_write_at buf 0 (e.line ++ [0]) (by
      rw [Entry.line_eq, List.length_append, List.length_append, List.length_singleton, List.length_singleton]
      omega)
    obtain ⟨buf₂, hline⟩ := checkLine_spec files he (frames k) (Buf.holds_write hwrite)
    have hrest := ih (fun x hx => h x (List.mem_cons_of_mem e hx)) (k + 1) buf₂
    simp only [List.map_cons, checkLoop, hwrite, hline, hrest, Option.bind_eq_bind, Option.bind_some, pure, reportsFrom]

/-- No line depends on the lines before it, nor on what was in the array at first. -/
theorem check_entries (files : Files) (frames : Nat → Stack) {entries : List Entry} (h : ∀ e ∈ entries, e.Fits A)
    (buf : Buf UInt8 lineSize) :
    check A files frames buf (entries.flatMap Entry.line) =
      if failures (reportsFrom A files frames 0 entries) < 2 ^ 31 then
        some (reportsFrom A files frames 0 entries, failures (reportsFrom A files frames 0 entries))
      else none := by
  unfold check
  rw [fgetsAll_lines h, checkLoop_spec frames h]
  rfl

end Printed

/-! ## Verification -/

section Verification

variable {A : Algo} {files : Files}

/-- With a digest that fills the arrays, only the digest counts. -/
theorem report_full (hsize : A.digestSize = digestMax) {e : Entry} (stack : Stack) (hne : e.name ≠ [])
    (hname : ∀ c ∈ e.name, isSpace c = false) :
    e.report A files stack = (digestOf A (files e.name e.mode)).map fun d => (e.name, decide (d = e.digest)) := by
  have hskip : skipSpace e.name ≠ [] := by
    rw [ne_eq, skipSpace_eq_nil_iff]
    intro hall
    obtain ⟨c, cs, hcons⟩ := List.exists_cons_of_ne_nil hne
    have hc := hall c (hcons ▸ List.mem_cons_self)
    rw [hname c (hcons ▸ List.mem_cons_self)] at hc
    cases hc
  have hdrop : ∀ v : Buf UInt8 digestMax, v.toList.drop A.digestSize = [] := by
    intro v
    apply List.drop_eq_nil_of_le
    rw [Vector.length_toList, hsize]
  simp only [Entry.report, if_neg hskip, firstWord_eq_self hname, hdrop, List.append_nil]

theorem failures_append (rs rs' : List (List UInt8 × Bool)) : failures (rs ++ rs') = failures rs + failures rs' :=
  List.countP_append

theorem failures_reportsFrom_eq_zero_iff (A : Algo) (files : Files) (frames : Nat → Stack) (k : Nat)
    (entries : List Entry) :
    failures (reportsFrom A files frames k entries) = 0 ↔
      ∀ i (hi : i < entries.length) r, entries[i].report A files (frames (k + i)) = some r → r.2 = true := by
  induction entries generalizing k with
  | nil => exact iff_of_true rfl fun i hi => absurd hi (Nat.not_lt_zero i)
  | cons e es ih =>
    have hhead : failures (e.report A files (frames k)).toList = 0 ↔
        ∀ r, e.report A files (frames k) = some r → r.2 = true := by
      cases e.report A files (frames k) with
      | none => exact iff_of_true rfl nofun
      | some r => simp [failures]
    rw [reportsFrom, failures_append, Nat.add_eq_zero_iff, hhead, ih]
    constructor
    · rintro ⟨hfirst, hrest⟩ i hi r hr
      cases i with
      | zero => exact hfirst r hr
      | succ i => exact hrest i (Nat.lt_of_succ_lt_succ hi) r (by rwa [Nat.add_right_comm])
    · intro hall
      refine ⟨fun r hr => hall 0 (Nat.succ_pos _) r hr, fun i hi r hr => ?_⟩
      exact hall (i + 1) (Nat.succ_lt_succ hi) r (by rwa [← Nat.add_assoc, Nat.add_right_comm])

end Verification

/-- When `check` returns zero for a list that was printed with a digest of 64 bytes: every file that can be read has
the digest that its line has. A file that cannot be read does not count. -/
theorem check_zero_iff (A : Algo) (files : Files) (frames : Nat → Stack) (buf : Buf UInt8 lineSize)
    (entries : List Entry) (hsize : A.digestSize = digestMax)
    (hentries : ∀ e ∈ entries, e.Fits A ∧ e.name ≠ [] ∧ ∀ c ∈ e.name, isSpace c = false) :
    (∃ reports, check A files frames buf (entries.flatMap Entry.line) = some (reports, 0)) ↔
      ∀ e ∈ entries, ∀ d, digestOf A (files e.name e.mode) = some d → d = e.digest := by
  have hcheck := check_entries files frames (fun e he => (hentries e he).1) buf
  have hzero := failures_reportsFrom_eq_zero_iff A files frames 0 entries
  have hreports : failures (reportsFrom A files frames 0 entries) = 0 ↔
      ∀ e ∈ entries, ∀ d, digestOf A (files e.name e.mode) = some d → d = e.digest := by
    rw [hzero]
    constructor
    · intro hall e he d hd
      obtain ⟨i, hi, rfl⟩ := List.mem_iff_getElem.mp he
      obtain ⟨-, hne, hname⟩ := hentries _ he
      have hr := hall i hi _ (by rw [report_full hsize _ hne hname, hd]; rfl)
      exact of_decide_eq_true hr
    · intro hall i hi r hr
      obtain ⟨-, hne, hname⟩ := hentries _ (List.getElem_mem hi)
      rw [report_full hsize _ hne hname] at hr
      obtain ⟨d, hd, rfl⟩ := Option.map_eq_some_iff.mp hr
      exact decide_eq_true (hall _ (List.getElem_mem hi) d hd)
  rw [← hreports, hcheck]
  constructor
  · rintro ⟨reports, h⟩
    split at h
    · exact (Prod.ext_iff.mp (Option.some.inj h)).2
    · cases h
  · intro h
    exact ⟨reportsFrom A files frames 0 entries, by rw [if_pos (by rw [h]; decide), h]⟩

/-- The line of a file is accepted, and the file is reported by its name, as OK if it has the digest of the line and
as a failure if not, whatever the stack has. -/
def RoundTrips (A : Algo) (name : List UInt8) (mode : Mode) : Prop :=
  ∀ (files : Files) (frames : Nat → Stack) (buf : Buf UInt8 lineSize) (content d digest : List UInt8),
    files name mode = some ⟨content, false⟩ → A.hash.digest (calls content) = some d →
    digest.length = A.digestSize →
    check A files frames buf (printLine digest (some name) mode) =
      some ([(name, decide (d = digest))], if d = digest then 0 else 1)

section RoundTrips

variable {A : Algo} {name : List UInt8} {mode : Mode}

/-- A single line. -/
theorem check_line (files : Files) (frames : Nat → Stack) (buf : Buf UInt8 lineSize) {e : Entry} (h : e.Fits A) :
    check A files frames buf e.line =
      some ((e.report A files (frames 0)).toList, failures (e.report A files (frames 0)).toList) := by
  have hall : ∀ x ∈ [e], x.Fits A := fun x hx => List.mem_singleton.mp hx ▸ h
  have hcheck := check_entries files frames hall buf
  have hlist : reportsFrom A files frames 0 [e] = (e.report A files (frames 0)).toList := List.append_nil _
  have hfew : failures (e.report A files (frames 0)).toList < 2 ^ 31 := by
    have hle : failures (e.report A files (frames 0)).toList ≤ _ := List.countP_le_length
    have hone : (e.report A files (frames 0)).toList.length ≤ 1 := by
      cases e.report A files (frames 0) <;> simp
    omega
  rw [List.flatMap_singleton, hlist, if_pos hfew] at hcheck
  exact hcheck

/-- The digest of the empty file. -/
theorem exists_empty_digest (A : Algo) : ∃ d, A.hash.digest (calls []) = some d ∧ d.length = A.digestSize :=
  A.digests []

theorem roundTrips_of (hsize : A.digestSize = digestMax) (hfits : ∀ digest, digest.length = A.digestSize →
    (⟨digest, mode, name⟩ : Entry).Fits A) (hne : name ≠ []) (hname : ∀ c ∈ name, isSpace c = false) :
    RoundTrips A name mode := by
  intro files frames buf content d digest hfile hd hlen
  have hdigest : digestOf A (files name mode) = some d := by rw [hfile]; exact hd
  have hreport : (⟨digest, mode, name⟩ : Entry).report A files (frames 0) = some (name, decide (d = digest)) := by
    rw [report_full hsize (frames 0) hne hname, hdigest]
    rfl
  have hcheck := check_line files frames buf (hfits digest hlen)
  rw [hreport] at hcheck
  refine hcheck.trans ?_
  by_cases h : d = digest <;> simp [h, failures]

/-- What can be read of one file. -/
def onlyFile (name : List UInt8) (mode : Mode) : Files :=
  fun n m => if n = name ∧ m = mode then some ⟨[], false⟩ else none

/-- A stack that has other bytes in the two arrays. -/
def twoBytes : Stack := ⟨Vector.replicate _ 1, Vector.replicate _ 2⟩

theorem of_roundTrips (hfits : ∀ digest, digest.length = A.digestSize → (⟨digest, mode, name⟩ : Entry).Fits A)
    (h : RoundTrips A name mode) :
    A.digestSize = digestMax ∧ name ≠ [] ∧ ∀ c ∈ name, isSpace c = false := by
  obtain ⟨d, hd, hlen⟩ := exists_empty_digest A
  have hcheck := h (onlyFile name mode) (fun _ => twoBytes) (Vector.replicate _ 0) [] d d
    (if_pos ⟨rfl, rfl⟩) hd hlen
  have hline := check_line (onlyFile name mode) (fun _ => twoBytes) (Vector.replicate _ 0) (hfits d hlen)
  have hreports := (Prod.ext_iff.mp (Option.some.inj (hline.symm.trans hcheck))).1
  rw [decide_eq_true (Eq.refl d)] at hreports
  have hsome : (⟨d, mode, name⟩ : Entry).report A (onlyFile name mode) twoBytes = some (name, true) := by
    cases hr : (⟨d, mode, name⟩ : Entry).report A (onlyFile name mode) twoBytes with
    | none =>
      rw [hr] at hreports
      cases hreports
    | some r =>
      rw [hr] at hreports
      exact congrArg some (List.singleton_inj.mp hreports)
  unfold Entry.report at hsome
  split at hsome
  · cases hsome
  · rename_i hskip
    obtain ⟨d', hd', hpair⟩ := Option.map_eq_some_iff.mp hsome
    obtain ⟨hword, htext⟩ := Prod.ext_iff.mp hpair
    refine ⟨?_, ?_, ?_⟩
    · -- The bytes behind the digest would differ.
      have hle := A.digestSize_le
      have happ := of_decide_eq_true htext
      have hrest := (List.append_inj happ ((length_digestOf hd').trans hlen.symm)).2
      simp only [twoBytes, Vector.toList_replicate, List.drop_replicate] at hrest
      by_contra hne
      obtain ⟨k, hk⟩ : ∃ k, digestMax - A.digestSize = k + 1 := ⟨digestMax - A.digestSize - 1, by omega⟩
      rw [hk, List.replicate_succ, List.replicate_succ] at hrest
      exact absurd (List.cons.inj hrest).1 (by decide)
    · rintro rfl
      exact hskip rfl
    · intro c hc
      change firstWord name = name at hword
      rw [← hword] at hc
      exact isSpace_of_mem_firstWord hc

end RoundTrips

/-- Which names come back: with a digest of 64 bytes, those without white space. -/
theorem roundTrips_iff (A : Algo) (name : List UInt8) (mode : Mode) (hzero : 0 ∉ name) (hnewline : 0x0a ∉ name)
    (hshort : name.length < PATH_MAX) :
    RoundTrips A name mode ↔ A.digestSize = digestMax ∧ name ≠ [] ∧ ∀ c ∈ name, isSpace c = false := by
  have hfits : ∀ digest, digest.length = A.digestSize → (⟨digest, mode, name⟩ : Entry).Fits A :=
    fun digest hdigest => ⟨hdigest, hzero, hnewline, hshort⟩
  exact ⟨of_roundTrips hfits, fun h => roundTrips_of h.1 hfits h.2.1 h.2.2⟩

/-- The first 64 bytes of a text, with zeros behind it. -/
def front (s : List UInt8) : List UInt8 := (s ++ List.replicate 64 0).take 64

theorem length_front (s : List UInt8) : (front s).length = 64 := by
  rw [front, List.length_take, List.length_append, List.length_replicate]
  omega

/-- A class whose digest is the beginning of the message. -/
def frontClass : HashClass where
  State := List UInt8
  blockSize := 1
  reset := []
  update s data := some (s ++ data)
  updateFast s data := some (s ++ data)
  getDigest s := some (front s)

theorem exists_front (cs : List Call) (s : frontClass.State) : ∃ t, cs.foldlM frontClass.step s = some t := by
  induction cs generalizing s with
  | nil => exact ⟨s, rfl⟩
  | cons c cs ih =>
    obtain ⟨t, ht⟩ : ∃ t, frontClass.step s c = some t := by
      unfold step
      split <;> exact ⟨_, rfl⟩
    rw [List.foldlM_cons, ht]
    exact ih t

theorem digest_front (cs : List Call) : ∃ d, frontClass.digest cs = some d ∧ d.length = 64 := by
  obtain ⟨t, ht⟩ := exists_front cs frontClass.reset
  exact ⟨front t, congrArg (fun o => Option.bind o frontClass.getDigest) ht, length_front t⟩

def frontAlgo : Algo where
  hash := frontClass
  digestSize := 64
  digestSize_pos := Nat.zero_lt_succ 63
  digestSize_le := Nat.le_refl 64
  digests content := digest_front (calls content)

theorem roundTrips_abc : RoundTrips frontAlgo [0x61, 0x62, 0x63] .text := by
  refine (roundTrips_iff frontAlgo _ _ (by decide) (by decide) (by decide)).mpr ⟨rfl, by decide, fun c hc => ?_⟩
  simp only [List.mem_cons, List.not_mem_nil, or_false] at hc
  rcases hc with rfl | rfl | rfl <;> rfl

theorem check_zero_unreadable : ∃ reports, check frontAlgo (fun _ _ => none) (fun _ => twoBytes) (Vector.replicate _ 0)
    ([⟨List.replicate 64 0, .text, [0x61]⟩].flatMap Entry.line) = some (reports, 0) := by
  refine (check_zero_iff frontAlgo _ _ _ _ rfl ?_).mpr fun _ _ _ => nofun
  intro e he
  obtain rfl := List.mem_singleton.mp he
  refine ⟨⟨rfl, by decide, by decide, by decide⟩, by decide, fun c hc => ?_⟩
  obtain rfl := List.mem_singleton.mp hc
  rfl

end Drew.Sum
