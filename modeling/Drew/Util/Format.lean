import Mathlib.Data.List.TakeWhile
import Mathlib.Tactic
import Drew.Memory.Buffer

/-!
# Formatted input

The conversions `%x`, `%c` and `%s` of `sscanf`, on the characters of a string up to the zero at its end. Numbers
that were printed with two hexadecimal digits are read back, and words without white space are.
-/

namespace Drew.Format

open Drew.Memory

/-! ## Strings -/

/-- The string that begins at an index of an array. Without a zero from there on, its end is not in the array. -/
def cString {n : Nat} (v : Buf UInt8 n) (off : Nat) : Option (List UInt8) :=
  if 0 ∈ v.toList.drop off then some ((v.toList.drop off).takeWhile (· ≠ 0)) else none

theorem takeWhile_ne_zero {s : List UInt8} (hs : 0 ∉ s) (rest : List UInt8) :
    (s ++ 0 :: rest).takeWhile (· ≠ 0) = s := by
  have hall : ∀ c ∈ s, decide (c ≠ 0) = true := fun c hc => decide_eq_true fun h => hs (h ▸ hc)
  rw [List.takeWhile_append_of_pos hall, List.takeWhile_cons_of_neg (by simp), List.append_nil]

theorem cString_of_holds {n off : Nat} {v : Buf UInt8 n} {s : List UInt8} (h : v.Holds off (s ++ [0])) (hs : 0 ∉ s) :
    cString v off = some s := by
  have hread := h.read
  rw [Buf.read, if_pos h.1, Option.some.injEq] at hread
  have hdrop : v.toList.drop off = s ++ 0 :: (v.toList.drop off).drop (s ++ [0]).length := by
    conv_lhs => rw [← List.take_append_drop (s ++ [0]).length (v.toList.drop off), hread]
    rw [List.append_assoc, List.singleton_append]
  rw [cString, hdrop, if_pos (by simp), takeWhile_ne_zero hs]

/-! ## Characters -/

/-- `isspace`, in the locale of C. -/
def isSpace (c : UInt8) : Bool := c == 0x20 || (0x09 ≤ c && c ≤ 0x0d)

/-- The value of a hexadecimal digit. -/
def hexDigit? (c : UInt8) : Option Nat :=
  if 0x30 ≤ c ∧ c ≤ 0x39 then some (c.toNat - 0x30)
  else if 0x41 ≤ c ∧ c ≤ 0x46 then some (c.toNat - 0x37)
  else if 0x61 ≤ c ∧ c ≤ 0x66 then some (c.toNat - 0x57)
  else none

/-- A digit as `%x` prints it. -/
def digitChar (d : Nat) : UInt8 := UInt8.ofNat (Nat.digitChar d).toNat

/-- A byte as `%02x` prints it. -/
def hexByte (b : UInt8) : List UInt8 := [digitChar (b.toNat / 16), digitChar (b.toNat % 16)]

@[simp] theorem length_hexByte (b : UInt8) : (hexByte b).length = 2 := rfl

theorem hexDigit?_digitChar {d : Nat} (hd : d < 16) : hexDigit? (digitChar d) = some d := by
  have hall : ∀ d : Fin 16, hexDigit? (digitChar d) = some d.val := by decide
  exact hall ⟨d, hd⟩

/-- What a digit is not. -/
theorem of_hexDigit? {c : UInt8} {n : Nat} (h : hexDigit? c = some n) :
    isSpace c = false ∧ c ≠ 0x2b ∧ c ≠ 0x2d ∧ c ≠ 0x78 ∧ c ≠ 0x58 ∧ c ≠ 0 ∧ n < 16 := by
  have hall : ∀ i : Fin 256, (hexDigit? (UInt8.ofNat i)).isSome = true →
      isSpace (UInt8.ofNat i) = false ∧ UInt8.ofNat i ≠ 0x2b ∧ UInt8.ofNat i ≠ 0x2d ∧ UInt8.ofNat i ≠ 0x78 ∧
        UInt8.ofNat i ≠ 0x58 ∧ UInt8.ofNat i ≠ 0 ∧ (hexDigit? (UInt8.ofNat i)).getD 0 < 16 := by decide +kernel
  have hc := hall ⟨c.toNat, c.toNat_lt⟩
  rw [UInt8.ofNat_toNat, h] at hc
  exact hc rfl

/-! ## Conversions -/

/-- What a conversion makes of a string: there is nothing left to read, or what there is does not match, or a value
and the rest of the string. -/
inductive Scan (α : Type) where
  | eof
  | mismatch
  | ok (value : α) (rest : List UInt8)
  deriving DecidableEq

def skipSpace (s : List UInt8) : List UInt8 := s.dropWhile isSpace

/-- The sign in front of a number, and the width behind it. -/
def takeSign : Nat → List UInt8 → Bool × Nat × List UInt8
  | w + 1, c :: s => if c = 0x2d then (true, w, s) else if c = 0x2b then (false, w, s) else (false, w + 1, c :: s)
  | w, s => (false, w, s)

/-- The characters `0x` in front of the digits. -/
def takePrefix : Nat → List UInt8 → Nat × List UInt8
  | w + 2, z :: x :: s => if z = 0x30 ∧ (x = 0x78 ∨ x = 0x58) then (w, s) else (w + 2, z :: x :: s)
  | w, s => (w, s)

/-- The digits of a number. -/
def takeDigits (w : Nat) (s : List UInt8) : List UInt8 := (s.take w).takeWhile fun c => (hexDigit? c).isSome

def hexNumber (ds : List UInt8) : Nat := ds.foldl (fun n c => 16 * n + (hexDigit? c).getD 0) 0

/-- `%wx`. -/
def scanHex (w : Nat) (s : List UInt8) : Scan Int :=
  match skipSpace s with
  | [] => .eof
  | c :: cs =>
      let (neg, w, s) := takeSign w (c :: cs)
      let (w, s) := takePrefix w s
      let ds := takeDigits w s
      if ds = [] then .mismatch
      else .ok (if neg then -(hexNumber ds : Int) else hexNumber ds) (s.drop ds.length)

/-- `%c`. -/
def scanChar : List UInt8 → Scan UInt8
  | [] => .eof
  | c :: s => .ok c s

/-- `%s`, or `%ws` if there is a width. -/
def scanWord (width : Option Nat) (s : List UInt8) : Scan (List UInt8) :=
  match skipSpace s with
  | [] => .eof
  | c :: cs =>
      let word := ((c :: cs).take (width.getD (c :: cs).length)).takeWhile fun c => !isSpace c
      .ok word ((c :: cs).drop word.length)

/-! ## Numbers -/

section Numbers

variable {c x : UInt8} {m n : Nat} {rest : List UInt8}

theorem skipSpace_cons (hc : isSpace c = false) (s : List UInt8) : skipSpace (c :: s) = c :: s := by
  rw [skipSpace, List.dropWhile_cons_of_neg (by simp [hc])]

/-- Two digits are read, whatever comes behind them. -/
theorem scanHex_two (hc : hexDigit? c = some m) (hx : hexDigit? x = some n) (rest : List UInt8) :
    scanHex 2 (c :: x :: rest) = .ok (16 * m + n : Nat) rest := by
  obtain ⟨hspace, hplus, hminus, -⟩ := of_hexDigit? hc
  obtain ⟨-, -, -, hlow, hup, -⟩ := of_hexDigit? hx
  have hdigits : takeDigits 2 (c :: x :: rest) = [c, x] := by
    simp [takeDigits, hc, hx]
  have hnumber : hexNumber [c, x] = 16 * m + n := by
    simp [hexNumber, hc, hx]
  simp only [scanHex, skipSpace_cons hspace, takeSign, if_neg hminus, if_neg hplus, takePrefix, hlow, hup, or_self,
    and_false, if_false, hdigits, hnumber]
  rfl

theorem scanHex_hexByte (b : UInt8) (rest : List UInt8) : scanHex 2 (hexByte b ++ rest) = .ok b.toNat rest := by
  have hb := b.toNat_lt
  have hhi : hexDigit? (digitChar (b.toNat / 16)) = some (b.toNat / 16) := hexDigit?_digitChar (by omega)
  have hlo : hexDigit? (digitChar (b.toNat % 16)) = some (b.toNat % 16) := hexDigit?_digitChar (by omega)
  rw [hexByte, List.cons_append, List.cons_append, List.nil_append, scanHex_two hhi hlo, Nat.div_add_mod]

end Numbers

/-! ## Words -/

section Words

variable {s t : List UInt8}

/-- A text with nothing but white space. -/
theorem skipSpace_eq_nil_iff : skipSpace s = [] ↔ ∀ c ∈ s, isSpace c = true := by
  rw [skipSpace, List.dropWhile_eq_nil_iff]

/-- The first word of a text. -/
def firstWord (s : List UInt8) : List UInt8 := (skipSpace s).takeWhile fun c => !isSpace c

theorem scanWord_none (s : List UInt8) :
    scanWord none s = if skipSpace s = [] then .eof
      else .ok (firstWord s) ((skipSpace s).drop (firstWord s).length) := by
  unfold scanWord firstWord
  cases h : skipSpace s with
  | nil => rfl
  | cons c cs => simp

/-- A text without white space is its first word. -/
theorem firstWord_eq_self (hs : ∀ c ∈ s, isSpace c = false) : firstWord s = s := by
  have hskip : skipSpace s = s := by
    cases s with
    | nil => rfl
    | cons c cs => exact skipSpace_cons (hs c List.mem_cons_self) cs
  rw [firstWord, hskip, List.takeWhile_eq_self_iff]
  intro c hc
  rw [hs c hc]
  rfl

/-- There is no white space in a word. -/
theorem isSpace_of_mem_firstWord {c : UInt8} (hc : c ∈ firstWord s) : isSpace c = false := by
  have h := List.mem_takeWhile_imp hc
  simpa using h

/-- A word of the width that is asked for. -/
theorem scanWord_append {w : Nat} (hlen : s.length = w) (hw : 0 < w) (hs : ∀ c ∈ s, isSpace c = false) :
    scanWord (some w) (s ++ t) = .ok s t := by
  obtain ⟨c, cs, rfl⟩ := List.exists_cons_of_length_pos (hlen ▸ hw)
  have hskip : skipSpace (c :: cs ++ t) = c :: (cs ++ t) := skipSpace_cons (hs c List.mem_cons_self) _
  have htake : (c :: (cs ++ t)).take w = c :: cs := by
    rw [← List.cons_append, List.take_left' hlen]
  have hword : (c :: cs).takeWhile (fun c => !isSpace c) = c :: cs := by
    rw [List.takeWhile_eq_self_iff]
    intro b hb
    rw [hs b hb]
    rfl
  simp only [scanWord, hskip, Option.getD_some, htake, hword]
  rw [← List.cons_append, List.drop_left]

end Words

end Drew.Format
