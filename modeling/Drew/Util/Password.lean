import Drew.Memory.BigEndian

/-!
# Passwords

`daniel.c` makes passwords from a master secret, a code, flags, a version and a length. A key is derived from
strings, each with its length before it, and the characters are those bytes of a keystream that the flags allow.
-/

namespace Drew.Daniel

open Drew.Memory

/-! ## Data -/

def FLAG_NO_NUMBERS : Int32 := 0x01

def FLAG_NO_SPACES : Int32 := 0x02

def FLAG_NO_SYMBOLS_TOP : Int32 := 0x04

def FLAG_NO_SYMBOLS_OTHER : Int32 := 0x08

def FLAG_NO_LETTERS : Int32 := 0x10

def FLAG_EXPLICIT_VERSION : Int32 := 0x40

/-- What the plugins compute: PBKDF2 with a salt, a number of iterations and a number of bytes, and the keystream of
AES in counter mode with a key and an IV. -/
structure Crypto where
  derive : List UInt8 → Nat → Nat → List UInt8 → List UInt8
  keystream : List UInt8 → List UInt8 → Nat → UInt8

/-- The members of `struct data` that `generatePassword` reads. -/
structure Data where
  qc : List UInt8
  masterSecret : List UInt8

/-- The characters of a string. -/
def ascii (s : String) : List UInt8 := s.toList.map fun c => UInt8.ofNat c.toNat

def progPrefix : List UInt8 := ascii "DrewPassChart: Version 0x00000000: "

/-! ## Strings -/

/-- A digit as it is printed by `%x`. -/
def hexChar (d : Nat) : UInt8 := UInt8.ofNat (Nat.digitChar d).toNat

/-- `%0wx`. -/
def hexText (w n : Nat) : List UInt8 :=
  let ds := (Nat.digits 16 n).reverse.map hexChar
  List.replicate (w - ds.length) (hexChar 0) ++ ds

def storeUint32 (x : UInt32) : List UInt8 :=
  [(x >>> 24).toUInt8, (x >>> 16).toUInt8, (x >>> 8).toUInt8, x.toUInt8]

/-- The buffer that `process_strings` makes. A length is cut to 32 bits. -/
def serialise (strs : List (List UInt8)) : List UInt8 :=
  strs.flatMap fun s => storeUint32 (UInt32.ofNat s.length) ++ s

/-- What `process_strings` gives to the derivation: the salt and the buffer. -/
def derivationInput (strs : List (List UInt8)) (data : List UInt8) : List UInt8 × List UInt8 :=
  (data, serialise strs)

def processStrings (c : Crypto) (nbytes : Nat) (strs : List (List UInt8)) (data : List UInt8) : List UInt8 :=
  let input := derivationInput strs data
  c.derive input.1 1024 nbytes input.2

/-- The strings that the IV is derived from. -/
def ivStrings (s : List UInt8) (flags version : Int32) : List (List UInt8) :=
  [progPrefix, ascii "IV: ",
    ascii "Flags 0x" ++ hexText 8 flags.toUInt32.toNat ++ ascii ": ",
    ascii "Version 0x" ++ hexText 8 version.toUInt32.toNat ++ ascii ": ", s]

/-! ## Characters -/

/-- `FL(SPACES)` and so on, for the table. -/
abbrev SP : Int32 := FLAG_NO_SPACES

abbrev ST : Int32 := FLAG_NO_SYMBOLS_TOP

abbrev SO : Int32 := FLAG_NO_SYMBOLS_OTHER

abbrev NU : Int32 := FLAG_NO_NUMBERS

abbrev LE : Int32 := FLAG_NO_LETTERS

def charclass : List Int32 := [
  -- 0x00
  -1, -1, -1, -1, -1, -1, -1, -1, -1, -1, -1, -1, -1, -1, -1, -1,
  -- 0x10
  -1, -1, -1, -1, -1, -1, -1, -1, -1, -1, -1, -1, -1, -1, -1, -1,
  -- 0x20
  SP, ST, SO, ST, ST, ST, ST, SO, ST, ST, ST, SO, SO, SO, SO, SO,
  -- 0x30
  NU, NU, NU, NU, NU, NU, NU, NU, NU, NU, SO, SO, SO, SO, SO, SO,
  -- 0x40
  ST, LE, LE, LE, LE, LE, LE, LE, LE, LE, LE, LE, LE, LE, LE, LE,
  -- 0x50
  LE, LE, LE, LE, LE, LE, LE, LE, LE, LE, LE, SO, SO, SO, ST, SO,
  -- 0x60
  SO, LE, LE, LE, LE, LE, LE, LE, LE, LE, LE, LE, LE, LE, LE, LE,
  -- 0x70
  LE, LE, LE, LE, LE, LE, LE, LE, LE, LE, LE, SO, SO, SO, SO, -1]

/-- The byte is printed. -/
def allowed (flags : Int32) (b : UInt8) : Bool :=
  if b ≥ 0x80 then false
  else
    match charclass[b.toNat]? with
    | none => false
    | some cls => cls != -1 && (flags &&& cls) == 0

/-- The inner loop over a block: how many characters were printed, and which. -/
def blockLoop (flags : Int32) (size : Int) : List UInt8 → Nat × List UInt8 → Nat × List UInt8
  | [], st => st
  | b :: bs, st =>
      if (st.1 : Int) < size then
        blockLoop flags size bs (if allowed flags b = true then (st.1 + 1, st.2 ++ [b]) else st)
      else st

/-- The loop from the `k`-th block on. It does not end if it takes more rounds than there are. -/
def passwordLoop (ks : Nat → UInt8) (flags : Int32) (size : Int) :
    Nat → Nat → Nat × List UInt8 → Option (List UInt8)
  | rounds, k, st =>
      if (st.1 : Int) < size then
        match rounds with
        | 0 => none
        | rounds + 1 =>
            let buf := (List.range 16).map fun i => ks (16 * k + i)
            passwordLoop ks flags size rounds (k + 1) (blockLoop flags size buf st)
      else some st.2

/-- The reminder that is printed. -/
def reminderText (d : Data) (s : List UInt8) (flags version size : Int32) : List UInt8 :=
  let x := fun n : Int32 => hexText 2 n.toUInt32.toNat
  if flags &&& FLAG_EXPLICIT_VERSION ≠ 0 then d.qc ++ x flags ++ x 0 ++ x size ++ x version ++ s
  else d.qc ++ x flags ++ x size ++ x version ++ s

/-- The password that is printed, and the reminder if there is one. -/
def generatePassword (c : Crypto) (d : Data) (s : List UInt8) (flags version size : Int32) (reminder : Bool)
    (rounds : Nat) : Option (List UInt8 × Option (List UInt8)) := do
  let iv := processStrings c 16 (ivStrings s flags version) d.masterSecret
  let password ← passwordLoop (c.keystream d.masterSecret iv) flags size.toInt rounds 0 (0, [])
  return (password, if reminder then some (reminderText d s flags version size) else none)

/-! ## The loop -/

section Loop

variable {ks : Nat → UInt8} {flags : Int32} {size : Int}

/-- The first bytes of the keystream. -/
def firstBytes (ks : Nat → UInt8) (n : Nat) : List UInt8 := (List.range n).map ks

/-- What is printed of some bytes. -/
def printed (flags : Int32) (size : Int) (bs : List UInt8) : List UInt8 := (bs.filter (allowed flags)).take size.toNat

theorem firstBytes_block (ks : Nat → UInt8) (k : Nat) :
    firstBytes ks (16 * (k + 1)) = firstBytes ks (16 * k) ++ (List.range 16).map fun i => ks (16 * k + i) := by
  rw [firstBytes, Nat.mul_succ, List.range_add, List.map_append, List.map_map]
  rfl

/-- A byte more. -/
theorem printed_snoc (bs : List UInt8) (b : UInt8) (h : ((printed flags size bs).length : Int) < size) :
    printed flags size (bs ++ [b]) = if allowed flags b = true then printed flags size bs ++ [b]
      else printed flags size bs := by
  have hlen : (bs.filter (allowed flags)).length < size.toNat := by
    rw [printed, List.length_take] at h
    omega
  unfold printed
  rw [List.filter_append]
  by_cases hb : allowed flags b = true
  · rw [if_pos hb, List.filter_cons_of_pos hb, List.filter_nil, List.take_of_length_le hlen.le,
      List.take_of_length_le (by rw [List.length_append, List.length_singleton]; omega)]
  · rw [if_neg hb, List.filter_cons_of_neg hb, List.filter_nil, List.append_nil]

/-- All that is printed was printed already. -/
theorem printed_append (bs cs : List UInt8) (h : size ≤ (printed flags size bs).length) :
    printed flags size (bs ++ cs) = printed flags size bs := by
  unfold printed at h ⊢
  rw [List.length_take] at h
  rw [List.filter_append, List.take_append_of_le_length (by omega)]

theorem blockLoop_spec (bs cs : List UInt8) :
    blockLoop flags size cs ((printed flags size bs).length, printed flags size bs) =
      ((printed flags size (bs ++ cs)).length, printed flags size (bs ++ cs)) := by
  induction cs generalizing bs with
  | nil => rw [blockLoop, List.append_nil]
  | cons c cs ih =>
    rw [blockLoop]
    by_cases h : ((printed flags size bs).length : Int) < size
    · have hnext := ih (bs ++ [c])
      rw [List.append_assoc, List.singleton_append, printed_snoc bs c h] at hnext
      rw [if_pos h]
      by_cases hc : allowed flags c = true
      · rw [if_pos hc] at hnext ⊢
        rw [List.length_append, List.length_singleton] at hnext
        exact hnext
      · rw [if_neg hc] at hnext ⊢
        exact hnext
    · rw [if_neg h, printed_append bs (c :: cs) (not_lt.mp h)]

/-- The loop ends in some rounds if there are enough characters in their blocks. -/
theorem passwordLoop_spec (rounds k : Nat) :
    passwordLoop ks flags size rounds k
        ((printed flags size (firstBytes ks (16 * k))).length, printed flags size (firstBytes ks (16 * k))) =
      if ((printed flags size (firstBytes ks (16 * (k + rounds)))).length : Int) < size then none
      else some (printed flags size (firstBytes ks (16 * (k + rounds)))) := by
  induction rounds generalizing k with
  | zero => rw [passwordLoop, Nat.add_zero]
  | succ rounds ih =>
    rw [passwordLoop]
    by_cases h : ((printed flags size (firstBytes ks (16 * k))).length : Int) < size
    · rw [if_pos h]
      dsimp only
      rw [blockLoop_spec, ← firstBytes_block, ih (k + 1), Nat.add_right_comm k 1, Nat.add_assoc]
    · have hmore : firstBytes ks (16 * (k + (rounds + 1))) = firstBytes ks (16 * k) ++
          (List.range (16 * (rounds + 1))).map fun i => ks (16 * k + i) := by
        rw [firstBytes, Nat.mul_add, List.range_add, List.map_append, List.map_map]
        rfl
      rw [if_neg h, hmore, printed_append _ _ (not_lt.mp h), if_neg h]

theorem passwordLoop_eq (rounds : Nat) :
    passwordLoop ks flags size rounds 0 (0, []) =
      if ((printed flags size (firstBytes ks (16 * rounds))).length : Int) < size then none
      else some (printed flags size (firstBytes ks (16 * rounds))) := by
  have h := @passwordLoop_spec ks flags size rounds 0
  have hnil : printed flags size (firstBytes ks (16 * 0)) = [] := List.take_nil
  rwa [hnil, Nat.zero_add] at h

/-- Every byte occurs again and again. -/
def Recurrent (ks : Nat → UInt8) : Prop := ∀ (b : UInt8) (n : Nat), ∃ m, n ≤ m ∧ ks m = b

/-- There are as many allowed bytes as one likes. -/
theorem exists_allowed (hks : Recurrent ks) {b : UInt8} (hb : allowed flags b = true) (j : Nat) :
    ∃ n, j ≤ ((firstBytes ks n).filter (allowed flags)).length := by
  induction j with
  | zero => exact ⟨0, Nat.zero_le _⟩
  | succ j ih =>
    obtain ⟨n, hn⟩ := ih
    obtain ⟨m, hnm, hm⟩ := hks b n
    obtain ⟨d, rfl⟩ := Nat.exists_eq_add_of_le hnm
    refine ⟨n + d + 1, ?_⟩
    have hsplit : firstBytes ks (n + d + 1) = firstBytes ks n ++
        ((List.range d).map fun i => ks (n + i)) ++ [b] := by
      rw [firstBytes, List.range_succ, List.range_add, List.map_append, List.map_append, List.map_map,
        List.map_singleton, hm]
      rfl
    rw [hsplit, List.filter_append, List.filter_append, List.filter_cons_of_pos hb, List.filter_nil,
      List.length_append, List.length_append, List.length_singleton]
    omega

end Loop

/-! ## Characters that are left -/

def classes : List Int32 :=
  [FLAG_NO_NUMBERS, FLAG_NO_SPACES, FLAG_NO_SYMBOLS_TOP, FLAG_NO_SYMBOLS_OTHER, FLAG_NO_LETTERS]

/-- The flags leave a class of characters. -/
def Open (flags : Int32) : Prop := ∃ cls ∈ classes, flags &&& cls = 0

/-- A character that can be seen, or a space, of a class that the flags leave. -/
def Permitted (flags : Int32) (b : UInt8) : Prop :=
  0x20 ≤ b.toNat ∧ b.toNat ≤ 0x7e ∧ ∃ cls, charclass[b.toNat]? = some cls ∧ cls ∈ classes ∧ flags &&& cls = 0

theorem length_charclass : charclass.length = 128 := by decide +kernel

/-- The bytes of the table that have a class. -/
theorem charclass_mem {i : Nat} {cls : Int32} (h : charclass[i]? = some cls) (hcls : cls ≠ -1) :
    0x20 ≤ i ∧ i ≤ 0x7e ∧ cls ∈ classes := by
  have hall : ∀ i : Fin 128, charclass.getD i (-1) ≠ -1 →
      0x20 ≤ i.val ∧ i.val ≤ 0x7e ∧ charclass.getD i (-1) ∈ classes := by decide
  have hi : i < 128 := length_charclass ▸ (List.getElem?_eq_some_iff.mp h).1
  have hget : charclass.getD i (-1) = cls := by rw [List.getD_eq_getElem?_getD, h, Option.getD_some]
  have hclass := hall ⟨i, hi⟩
  rw [hget] at hclass
  exact hclass hcls

/-- What is checked for each class. -/
theorem forall_classes {P : Int32 → Prop} [DecidablePred P] (h : classes.all (fun cls => decide (P cls)) = true) :
    ∀ cls ∈ classes, P cls := fun cls hmem => of_decide_eq_true (List.all_eq_true.mp h cls hmem)

theorem classes_ne {cls : Int32} (h : cls ∈ classes) : cls ≠ -1 := by
  have hall : ∀ cls ∈ classes, cls ≠ -1 := forall_classes (by decide)
  exact hall cls h

theorem allowed_iff {flags : Int32} {b : UInt8} : allowed flags b = true ↔ Permitted flags b := by
  unfold allowed Permitted
  constructor
  · intro h
    split at h
    · cases h
    · split at h
      · cases h
      · rename_i cls hcls
        rw [Bool.and_eq_true, bne_iff_ne, beq_iff_eq] at h
        obtain ⟨hlo, hhi, hmem⟩ := charclass_mem hcls h.1
        exact ⟨hlo, hhi, cls, hcls, hmem, h.2⟩
  · rintro ⟨-, hhi, cls, hcls, hmem, hflags⟩
    have hb : ¬ b ≥ 0x80 := by
      rw [ge_iff_le, UInt8.le_iff_toNat_le]
      exact not_le.mpr (by show b.toNat < 128; omega)
    rw [if_neg hb, hcls]
    simp [classes_ne hmem, hflags]

/-- A character of each class. -/
theorem exists_permitted {flags : Int32} (h : Open flags) : ∃ b, Permitted flags b := by
  have hall : ∀ cls ∈ classes, ∃ i : Fin 128, charclass[i.val]? = some cls :=
    forall_classes (by decide +kernel)
  obtain ⟨cls, hmem, hflags⟩ := h
  obtain ⟨i, hi⟩ := hall cls hmem
  have hb : (UInt8.ofNat i.val).toNat = i.val := UInt8.toNat_ofNat_of_lt' (i.isLt.trans (by decide))
  obtain ⟨hlo, hhi, -⟩ := charclass_mem hi (classes_ne hmem)
  refine ⟨UInt8.ofNat i.val, ?_⟩
  rw [Permitted, hb]
  exact ⟨hlo, hhi, cls, hi, hmem, hflags⟩

theorem open_of_permitted {flags : Int32} {b : UInt8} (h : Permitted flags b) : Open flags := by
  obtain ⟨-, -, cls, -, hmem, hflags⟩ := h
  exact ⟨cls, hmem, hflags⟩

/-! ## When a password is printed -/

/-- The keystream that a password is made from. -/
def keystreamOf (c : Crypto) (d : Data) (s : List UInt8) (flags version : Int32) : Nat → UInt8 :=
  c.keystream d.masterSecret (processStrings c 16 (ivStrings s flags version) d.masterSecret)

/-- The program ends, and prints as many characters as the length says, all of them permitted. -/
def PasswordRight (flags size : Int32) : Prop :=
  ∀ (c : Crypto) (d : Data) (s : List UInt8) (version : Int32) (reminder : Bool),
    Recurrent (keystreamOf c d s flags version) →
    ∃ rounds password text, (∀ more, rounds ≤ more →
        generatePassword c d s flags version size reminder more = some (password, text)) ∧
      (password.length : Int) = size.toInt ∧ ∀ b ∈ password, Permitted flags b

section Right

variable {c : Crypto} {d : Data} {s : List UInt8} {flags version size : Int32} {reminder : Bool}

theorem generatePassword_eq (rounds : Nat) :
    generatePassword c d s flags version size reminder rounds =
      (passwordLoop (keystreamOf c d s flags version) flags size.toInt rounds 0 (0, [])).map fun password =>
        (password, if reminder = true then some (reminderText d s flags version size) else none) := by
  show (passwordLoop (keystreamOf c d s flags version) flags size.toInt rounds 0 (0, [])).bind _ = _
  cases passwordLoop (keystreamOf c d s flags version) flags size.toInt rounds 0 (0, []) <;> rfl

theorem printed_permitted {size : Int} {bs : List UInt8} {b : UInt8} (h : b ∈ printed flags size bs) :
    Permitted flags b :=
  allowed_iff.mp (List.mem_filter.mp (List.mem_of_mem_take h)).2

/-- Nothing is to be printed, or something can be. -/
def Possible (flags size : Int32) : Prop := 0 ≤ size.toInt ∧ (size.toInt = 0 ∨ Open flags)

/-- The length is reached. -/
theorem exists_rounds {ks : Nat → UInt8} (hks : Recurrent ks) (h : Possible flags size) :
    ∃ rounds, (printed flags size.toInt (firstBytes ks (16 * rounds))).length = size.toInt := by
  rcases h with ⟨hnonneg, h0 | hopen⟩
  · refine ⟨0, ?_⟩
    rw [h0]
    rfl
  · obtain ⟨b, hb⟩ := exists_permitted hopen
    obtain ⟨n, hn⟩ := exists_allowed hks (allowed_iff.mpr hb) size.toInt.toNat
    refine ⟨n, ?_⟩
    obtain ⟨rest, hrest⟩ : ∃ rest, firstBytes ks (16 * n) = firstBytes ks n ++ rest := by
      refine ⟨(List.range (15 * n)).map fun i => ks (n + i), ?_⟩
      rw [firstBytes, show 16 * n = n + 15 * n by omega, List.range_add, List.map_append, List.map_map]
      rfl
    rw [hrest, printed, List.length_take, List.filter_append, List.length_append]
    omega

theorem right_of_possible (h : Possible flags size) : PasswordRight flags size := by
  intro c d s version reminder hks
  obtain ⟨rounds, hlen⟩ := exists_rounds hks h
  refine ⟨rounds, _, if reminder = true then some (reminderText d s flags version size) else none,
    fun more hmore => ?_, hlen, fun b hb => printed_permitted hb⟩
  obtain ⟨extra, rfl⟩ := Nat.exists_eq_add_of_le hmore
  have hsame : printed flags size.toInt (firstBytes (keystreamOf c d s flags version) (16 * (rounds + extra))) =
      printed flags size.toInt (firstBytes (keystreamOf c d s flags version) (16 * rounds)) := by
    rw [firstBytes, Nat.mul_add, List.range_add, List.map_append]
    exact printed_append _ _ hlen.ge
  rw [generatePassword_eq, passwordLoop_eq, hsame, hlen, if_neg (lt_irrefl _), Option.map_some]

/-- No character is left, so the loop does not end. -/
theorem never_ends (hflags : ¬ Open flags) (hsize : 0 < size.toInt) (rounds : Nat) :
    generatePassword c d s flags version size reminder rounds = none := by
  have hnil : printed flags size.toInt (firstBytes (keystreamOf c d s flags version) (16 * rounds)) = [] := by
    apply List.eq_nil_iff_forall_not_mem.mpr
    exact fun b hb => hflags (open_of_permitted (printed_permitted hb))
  have hlt : ((0 : Nat) : Int) < size.toInt := by exact_mod_cast hsize
  rw [generatePassword_eq, passwordLoop_eq, hnil, List.length_nil, if_pos hlt, Option.map_none]

/-- Plugins with a keystream that counts. -/
def counting : Crypto where
  derive _ _ _ _ := []
  keystream _ _ n := UInt8.ofNat n

theorem recurrent_counting (d : Data) (s : List UInt8) (flags version : Int32) :
    Recurrent (keystreamOf counting d s flags version) := by
  intro b n
  refine ⟨256 * n + b.toNat, by omega, ?_⟩
  show UInt8.ofNat (256 * n + b.toNat) = b
  apply UInt8.toNat_inj.mp
  have hb := b.toNat_lt
  rw [UInt8.toNat_ofNat']
  omega

theorem possible_of_right (h : PasswordRight flags size) : Possible flags size := by
  obtain ⟨rounds, password, text, hrun, hlen, -⟩ :=
    h counting ⟨[], []⟩ [] 0 false (recurrent_counting _ _ _ _)
  refine ⟨by omega, ?_⟩
  by_contra hnot
  rw [not_or] at hnot
  have hnone : generatePassword counting ⟨[], []⟩ [] flags 0 size false rounds = none :=
    never_ends hnot.2 (show 0 < size.toInt by omega) rounds
  rw [hrun rounds le_rfl] at hnone
  cases hnone

end Right

/-! ## What is derived from -/

/-- A byte of a word. -/
theorem toUInt8_shiftRight (x : UInt32) {k : Nat} (hk : k < 32) :
    (x >>> UInt32.ofNat k).toUInt8 = UInt8.ofNat (x.toNat / 2 ^ k) := by
  apply UInt8.toNat_inj.mp
  rw [UInt32.toNat_toUInt8, UInt32.toNat_shiftRight, UInt8.toNat_ofNat', UInt32.toNat_ofNat',
    Nat.shiftRight_eq_div_pow, Nat.mod_eq_of_lt (hk.trans (by decide)), Nat.mod_eq_of_lt hk]

theorem storeUint32_eq (x : UInt32) : storeUint32 x = beBytes 4 x.toNat := by
  have h24 : (x >>> 24).toUInt8 = UInt8.ofNat (x.toNat / 2 ^ 24) := toUInt8_shiftRight x (k := 24) (by decide)
  have h16 : (x >>> 16).toUInt8 = UInt8.ofNat (x.toNat / 2 ^ 16) := toUInt8_shiftRight x (k := 16) (by decide)
  have h8 : (x >>> 8).toUInt8 = UInt8.ofNat (x.toNat / 2 ^ 8) := toUInt8_shiftRight x (k := 8) (by decide)
  have h0 : x.toUInt8 = UInt8.ofNat x.toNat := by
    apply UInt8.toNat_inj.mp
    rw [UInt32.toNat_toUInt8, UInt8.toNat_ofNat']
  simp only [storeUint32, beBytes, List.nil_append, List.cons_append, h24, h16, h8, h0, Nat.div_div_eq_div_mul]
  norm_num

@[simp] theorem length_storeUint32 (x : UInt32) : (storeUint32 x).length = 4 := rfl

theorem storeUint32_inj {x y : UInt32} (h : storeUint32 x = storeUint32 y) : x = y := by
  rw [storeUint32_eq, storeUint32_eq] at h
  have hval := congrArg beNat h
  have hx := x.toNat_lt
  have hy := y.toNat_lt
  rw [beNat_beBytes, beNat_beBytes] at hval
  exact UInt32.toNat_inj.mp (by omega)

theorem serialise_cons (s : List UInt8) (strs : List (List UInt8)) :
    serialise (s :: strs) = storeUint32 (UInt32.ofNat s.length) ++ (s ++ serialise strs) := by
  rw [serialise, List.flatMap_cons, List.append_assoc]
  rfl

/-- Strings of one length are read back. -/
theorem serialise_cons_inj {s t : List UInt8} {strs strs' : List (List UInt8)} (hlen : s.length = t.length)
    (h : serialise (s :: strs) = serialise (t :: strs')) : s = t ∧ serialise strs = serialise strs' := by
  rw [serialise_cons, serialise_cons] at h
  exact List.append_inj (List.append_inj h (by simp)).2 hlen

/-- The lengths are read back if they are not cut. -/
theorem serialise_inj {strs strs' : List (List UInt8)} (hs : ∀ s ∈ strs, s.length < 2 ^ 32)
    (hs' : ∀ s ∈ strs', s.length < 2 ^ 32) (h : serialise strs = serialise strs') : strs = strs' := by
  induction strs generalizing strs' with
  | nil =>
    cases strs' with
    | nil => rfl
    | cons t ts =>
      rw [serialise_cons] at h
      cases h
  | cons s ss ih =>
    cases strs' with
    | nil =>
      rw [serialise_cons] at h
      cases h
    | cons t ts =>
      have hcons := h
      rw [serialise_cons, serialise_cons] at hcons
      have hword := storeUint32_inj (List.append_inj hcons (by simp)).1
      have hlen : s.length = t.length := by
        have hnat := congrArg UInt32.toNat hword
        rwa [UInt32.toNat_ofNat_of_lt' (hs s List.mem_cons_self),
          UInt32.toNat_ofNat_of_lt' (hs' t List.mem_cons_self)] at hnat
      obtain ⟨rfl, hrest⟩ := serialise_cons_inj hlen h
      rw [ih (fun x hx => hs x (List.mem_cons_of_mem s hx)) (fun x hx => hs' x (List.mem_cons_of_mem s hx)) hrest]

/-- A string of `2 ^ 32` bytes that begins with the length of the rest of it. -/
theorem serialise_collision {t : List UInt8} (ht : t.length + 4 = 2 ^ 32) :
    serialise [storeUint32 (UInt32.ofNat t.length) ++ t] = serialise [[], t] := by
  have hlen : UInt32.ofNat (storeUint32 (UInt32.ofNat t.length) ++ t).length = UInt32.ofNat ([] : List UInt8).length := by
    rw [List.length_append, length_storeUint32, Nat.add_comm, ht]
    rfl
  rw [serialise_cons, serialise_cons, serialise_cons, hlen, List.nil_append, List.append_assoc]

/-- The strings of a program: no byte in them is zero, and they are shorter than `n`. -/
def Strings (n : Nat) (strs : List (List UInt8)) : Prop := ∀ s ∈ strs, 0 ∉ s ∧ s.length < n

theorem zero_not_mem_replicate (n : Nat) : (0 : UInt8) ∉ List.replicate n 1 := by
  intro h
  exact absurd (List.eq_of_mem_replicate h) (by decide)

/-- A string that is four bytes short of the limit. -/
theorem exists_top : ∃ t : List UInt8, t.length + 4 = 2 ^ 32 ∧ 0 ∉ t := by
  obtain ⟨n, hn⟩ : ∃ n, n + 4 = 2 ^ 32 := ⟨2 ^ 32 - 4, rfl⟩
  exact ⟨List.replicate n 1, by rw [List.length_replicate, hn], zero_not_mem_replicate n⟩

theorem ofNat_top {n : Nat} (h : n + 4 = 2 ^ 32) : UInt32.ofNat n = 0xfffffffc := by
  obtain rfl : n = 4294967292 := by omega
  rfl

/-- The limit is that of a length. -/
theorem serialise_inj_iff (n : Nat) :
    (∀ strs strs', Strings n strs → Strings n strs' → ∀ x y,
      derivationInput strs x = derivationInput strs' y → strs = strs' ∧ x = y) ↔ n ≤ 2 ^ 32 := by
  constructor
  · intro h
    by_contra hn
    obtain ⟨t, ht, hzero⟩ := exists_top
    have hword := ofNat_top ht
    have hleft : Strings n [storeUint32 (UInt32.ofNat t.length) ++ t] := by
      intro s hs
      rw [List.mem_singleton.mp hs, hword, List.mem_append, List.length_append]
      refine ⟨not_or.mpr ⟨by decide, hzero⟩, ?_⟩
      rw [length_storeUint32]
      omega
    have hright : Strings n [[], t] := by
      intro s hs
      rcases List.mem_cons.mp hs with rfl | hs
      · exact ⟨List.not_mem_nil, by rw [List.length_nil]; omega⟩
      · rw [List.mem_singleton.mp hs]
        exact ⟨hzero, by omega⟩
    have hsame := (h _ _ hleft hright [] [] (by rw [derivationInput, derivationInput, serialise_collision ht])).1
    cases hsame
  · intro hn strs strs' hs hs' x y h
    obtain ⟨hx, hserial⟩ := Prod.ext_iff.mp h
    exact ⟨serialise_inj (fun s hmem => (hs s hmem).2.trans_le hn) (fun s hmem => (hs' s hmem).2.trans_le hn) hserial,
      hx⟩

/-! ## The strings of a password -/

/-- The value of a digit. -/
def hexValue (b : UInt8) : Nat := if b.toNat < 0x3a then b.toNat - 0x30 else b.toNat - 0x57

theorem hexValue_hexChar {d : Nat} (hd : d < 16) : hexValue (hexChar d) = d := by
  have hall : ∀ d : Fin 16, hexValue (hexChar d) = d := by decide
  exact hall ⟨d, hd⟩

/-- The number is read back, however many digits are printed. -/
theorem beVal_hexText (w n : Nat) : beVal hexValue 16 (hexText w n) = n := by
  have hzeros : ∀ k, beVal hexValue 16 (List.replicate k (hexChar 0)) = 0 := by
    intro k
    induction k with
    | zero => rfl
    | succ k ih => rw [List.replicate_succ, beVal_cons, ih, hexValue_hexChar (by decide), Nat.zero_mul]
  have hdigits : ((Nat.digits 16 n).map hexChar).map hexValue = Nat.digits 16 n := by
    have hid : ∀ d ∈ Nat.digits 16 n, (hexValue ∘ hexChar) d = id d :=
      fun d hd => hexValue_hexChar (Nat.digits_lt_base (by decide) hd)
    rw [List.map_map, List.map_congr_left hid, List.map_id]
  rw [hexText, beVal_append, hzeros, Nat.zero_mul, Nat.zero_add, beVal, List.map_reverse, List.map_reverse,
    List.map_reverse, List.reverse_reverse, hdigits, Nat.ofDigits_digits]

theorem length_hexText {w n : Nat} (h : n < 16 ^ w) : (hexText w n).length = w := by
  have hle := (Nat.digits_length_le_iff (by decide) n).mpr h
  rw [hexText, List.length_append, List.length_replicate, List.length_map, List.length_reverse]
  omega

theorem hexText_inj {w m n : Nat} (h : hexText w m = hexText w n) : m = n := by
  have hval := congrArg (beVal hexValue 16) h
  rwa [beVal_hexText, beVal_hexText] at hval

theorem toUInt32_inj {x y : Int32} (h : x.toUInt32 = y.toUInt32) : x = y := by
  cases x
  cases y
  exact congrArg Int32.ofUInt32 h

theorem toUInt32_lt (x : Int32) : x.toUInt32.toNat < 16 ^ 8 := x.toUInt32.toNat_lt

/-- The flags, the version, the code and the secret are told by what the IV is derived from. -/
theorem ivStrings_inj {s s' x y : List UInt8} {flags flags' version version' : Int32}
    (h : derivationInput (ivStrings s flags version) x = derivationInput (ivStrings s' flags' version') y) :
    flags = flags' ∧ version = version' ∧ s = s' ∧ x = y := by
  obtain ⟨hx, hserial⟩ := Prod.ext_iff.mp h
  have hlen : ∀ m n : Int32, (hexText 8 m.toUInt32.toNat).length = (hexText 8 n.toUInt32.toNat).length := by
    intro m n
    rw [length_hexText (toUInt32_lt m), length_hexText (toUInt32_lt n)]
  have htext : ∀ (t : List UInt8) (m n : Int32), t ++ hexText 8 m.toUInt32.toNat ++ ascii ": " =
      t ++ hexText 8 n.toUInt32.toNat ++ ascii ": " → m = n := by
    intro t m n hmn
    rw [List.append_cancel_right_eq, List.append_cancel_left_eq] at hmn
    exact toUInt32_inj (UInt32.toNat_inj.mp (hexText_inj hmn))
  have hrest := (serialise_cons_inj rfl (serialise_cons_inj rfl hserial).2).2
  obtain ⟨hflags, hrest⟩ := serialise_cons_inj (by simp only [List.length_append, hlen flags flags']) hrest
  obtain ⟨hversion, hrest⟩ := serialise_cons_inj (by simp only [List.length_append, hlen version version']) hrest
  have hs : s = s' := by
    rw [serialise_cons, serialise_cons] at hrest
    have hcode := (List.append_inj hrest (by simp)).2
    rwa [List.append_cancel_right_eq] at hcode
  exact ⟨htext _ _ _ hflags, htext _ _ _ hversion, hs, hx⟩

/-- A password is printed if and only if there is one to print, and the strings are told apart up to the limit of a
length, those of two passwords in any case. -/
theorem password_right_iff (flags size : Int32) :
    (PasswordRight flags size ↔ Possible flags size) ∧
    (∀ n, (∀ strs strs', Strings n strs → Strings n strs' → ∀ x y,
      derivationInput strs x = derivationInput strs' y → strs = strs' ∧ x = y) ↔ n ≤ 2 ^ 32) ∧
    ∀ s s' x y flags flags' version version',
      derivationInput (ivStrings s flags version) x = derivationInput (ivStrings s' flags' version') y →
      flags = flags' ∧ version = version' ∧ s = s' ∧ x = y :=
  ⟨⟨possible_of_right, right_of_possible⟩, serialise_inj_iff, fun _ _ _ _ _ _ _ _ => ivStrings_inj⟩

/-- The flags and the length without options. -/
theorem password_right_default : PasswordRight (FLAG_NO_SPACES ||| FLAG_NO_SYMBOLS_OTHER) 16 :=
  (password_right_iff _ _).1.mpr ⟨by decide, Or.inr ⟨FLAG_NO_NUMBERS, by decide, by decide⟩⟩

/-- With the flags 31 no character is left, and the program does not end. -/
theorem password_flags_all : ¬ PasswordRight 31 16 ∧
    ∀ c d s version reminder rounds, generatePassword c d s 31 version 16 reminder rounds = none := by
  have hflags : ¬ Open 31 := by
    rintro ⟨cls, hmem, hcls⟩
    have hall : ∀ cls ∈ classes, (31 : Int32) &&& cls ≠ 0 := forall_classes (by decide)
    exact hall cls hmem hcls
  refine ⟨fun h => ?_, fun c d s version reminder rounds => never_ends hflags (by decide) rounds⟩
  rcases possible_of_right h with ⟨-, h0 | hopen⟩
  · exact absurd h0 (by decide)
  · exact hflags hopen

end Drew.Daniel
