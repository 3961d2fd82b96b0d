import Drew.Util.Format
import Drew.Util.Password

/-!
# Reminders

`generate_password` of `daniel.c` prints a reminder, and `generate_password_from_reminder` reads it: six characters
that tell the master secret, the flags, the length and the version with two digits each, and the code. A number with
more digits moves everything behind it, and the code ends where the first white space is (`reminder_iff`).
-/

namespace Drew.Daniel

open Drew.Format

/-! ## The functions -/

/-- `process_strings_fast`, with what the plugin for SHA-256 computes. -/
def processStringsFast (sha256 : List UInt8 → Vector UInt8 32) (nbytes : Nat) (strs : List (List UInt8))
    (data : List UInt8) : List UInt8 :=
  (sha256 (serialise strs ++ storeUint32 (UInt32.ofNat data.length) ++ data)).toList.take nbytes

def calculateQuickCheck (sha256 : List UInt8 → Vector UInt8 32) (d : Data) : Data :=
  { d with qc := (processStringsFast sha256 3 [progPrefix, ascii "Quick Check: "] d.masterSecret).flatMap hexByte }

/-- The messages for a reminder that is refused. -/
inductive Refusal where
  | badContents
  | badFormat
  | unknownFormat (format : Int32)
  deriving DecidableEq

/-- The string from a character on. Nothing may be read behind its zero. -/
def behind (s : List UInt8) (off : Nat) : Option (List UInt8) := if off ≤ s.length then some (s.drop off) else none

/-- The flags, the version, the length and the code of a reminder. -/
abbrev Parsed := Except Refusal (Int32 × Int32 × Int32 × List UInt8)

/-- The conversions `%02x%02x%s` behind the flags, and the checks. -/
def parseRest (flags : Int32) (s : List UInt8) : Parsed :=
  match scanHex 2 s with
  | .ok size s =>
      match scanHex 2 s with
      | .ok version s =>
          match scanWord none s with
          | .ok t _ =>
              if Int32.ofInt size &&& 0x80 ≠ 0 ∨ Int32.ofInt version &&& 0x80 ≠ 0 then .error .badContents
              else .ok (flags, Int32.ofInt version, Int32.ofInt size, t)
          | _ => .error .badContents
      | _ => .error .badContents
  | _ => .error .badContents

/-- What `generate_password_from_reminder` makes of its argument. The offsets do not depend on how much was read. -/
def parseReminder (s : List UInt8) : Option Parsed :=
  match scanWord (some 6) s with
  | .ok _ rest =>
      match scanHex 2 rest with
      | .ok x _ =>
          let flags := Int32.ofInt x
          if flags &&& 0x80 ≠ 0 then some (.error .badContents)
          else if flags &&& FLAG_EXPLICIT_VERSION ≠ 0 then
            (behind s 8).bind fun t =>
              match scanHex 2 t with
              | .ok y _ =>
                  let format := Int32.ofInt y
                  if format ≠ 0 then some (.error (.unknownFormat format))
                  else (behind s 10).map (parseRest flags)
              | _ => some (.error .badFormat)
          else (behind s 8).map (parseRest flags)
      | _ => some (.error .badContents)
  | _ => some (.error .badContents)

/-- `generate_password_from_reminder`: the password, or why there is none. -/
def generatePasswordFromReminder (c : Crypto) (d : Data) (s : List UInt8) (rounds : Nat) :
    Option (Except Refusal (List UInt8 × Option (List UInt8))) := do
  match ← parseReminder s with
  | .error e => return .error e
  | .ok (flags, version, size, t) => return .ok (← generatePassword c d t flags version size false rounds)

/-! ## Numbers -/

/-- The number has two digits, and its highest bit is not set. -/
def Small (x : Int32) : Prop := 0 ≤ x.toInt ∧ x.toInt < 128

section Numbers

theorem ofInt_byte {v : Nat} (hv : v < 256) : (Int32.ofInt v).toUInt32.toNat = v ∧ (Int32.ofInt v).toInt = v ∧
    (Int32.ofInt v &&& 0x80 = 0 ↔ v < 128) := by
  have hall : ∀ v : Fin 256, (Int32.ofInt (v.val : Int)).toUInt32.toNat = v.val ∧
      (Int32.ofInt (v.val : Int)).toInt = v.val ∧ (Int32.ofInt (v.val : Int) &&& 0x80 = 0 ↔ v.val < 128) := by
    decide +kernel
  exact hall ⟨v, hv⟩

theorem small_ofInt {v : Nat} (hv : v < 256) : Small (Int32.ofInt v) ↔ Int32.ofInt v &&& 0x80 = 0 := by
  obtain ⟨-, hint, hbit⟩ := ofInt_byte hv
  rw [Small, hint, hbit]
  omega

/-- A small number is that of its digits. -/
theorem Small.eq_ofInt {x : Int32} (h : Small x) : x.toUInt32.toNat < 256 ∧ Int32.ofInt x.toUInt32.toNat = x := by
  obtain ⟨v, hv⟩ : ∃ v : Nat, x.toInt = v := ⟨x.toInt.toNat, by have := h.1; omega⟩
  have hlt : v < 256 := by
    have h2 := h.2
    omega
  have hx : Int32.ofInt v = x := by rw [← hv, Int32.ofInt_toInt]
  have hnat := (ofInt_byte hlt).1
  rw [hx] at hnat
  rw [hnat]
  exact ⟨hlt, hx⟩

theorem mem_hexText {w n : Nat} {c : UInt8} (h : c ∈ hexText w n) : ∃ d < 16, c = hexChar d := by
  rcases List.mem_append.mp h with h | h
  · exact ⟨0, by decide, List.eq_of_mem_replicate h⟩
  · obtain ⟨d, hd, rfl⟩ := List.mem_map.mp h
    exact ⟨d, Nat.digits_lt_base (by decide) (List.mem_reverse.mp hd), rfl⟩

theorem le_length_hexText (w n : Nat) : w ≤ (hexText w n).length := by
  rw [hexText, List.length_append, List.length_replicate]
  omega

/-- A number begins with two digits. -/
theorem hexText_two (n : Nat) : ∃ d < 16, ∃ e < 16, ∃ more, hexText 2 n = hexChar d :: hexChar e :: more ∧
    (n < 256 → more = [] ∧ 16 * d + e = n) := by
  have hlen := le_length_hexText 2 n
  obtain ⟨c, cs, hcs⟩ := List.exists_cons_of_length_pos (l := hexText 2 n) (by omega)
  obtain ⟨b, more, rfl⟩ := List.exists_cons_of_length_pos (l := cs) (by
    rw [hcs, List.length_cons] at hlen
    omega)
  obtain ⟨d, hd, rfl⟩ := mem_hexText (hcs ▸ List.mem_cons_self)
  obtain ⟨e, he, rfl⟩ := mem_hexText (hcs ▸ List.mem_cons_of_mem _ List.mem_cons_self)
  refine ⟨d, hd, e, he, more, hcs, fun hn => ?_⟩
  have hmore : more = [] := by
    have htwo := length_hexText (w := 2) (show n < 16 ^ 2 by omega)
    rw [hcs, List.length_cons, List.length_cons] at htwo
    exact List.eq_nil_of_length_eq_zero (by omega)
  have hval := beVal_hexText 2 n
  rw [hcs, hmore] at hval
  refine ⟨hmore, ?_⟩
  rw [← hval, Drew.Memory.beVal_cons, Drew.Memory.beVal_cons, hexValue_hexChar hd, hexValue_hexChar he]
  simp [Drew.Memory.beVal]
  omega

theorem hexDigit?_hexChar {d : Nat} (hd : d < 16) : hexDigit? (hexChar d) = some d := hexDigit?_digitChar hd

variable (rest : List UInt8)

theorem scanHex_hexText {n : Nat} (hn : n < 256) : scanHex 2 (hexText 2 n ++ rest) = .ok (n : Int) rest := by
  obtain ⟨d, hd, e, he, more, htext, hsmall⟩ := hexText_two n
  obtain ⟨rfl, hval⟩ := hsmall hn
  rw [htext, List.cons_append, List.cons_append, List.nil_append,
    scanHex_two (hexDigit?_hexChar hd) (hexDigit?_hexChar he), hval]

/-- What is read of any number is a byte. -/
theorem exists_scanHex (n : Nat) : ∃ v < 256, ∃ more, scanHex 2 (hexText 2 n ++ rest) = .ok (v : Nat) more := by
  obtain ⟨d, hd, e, he, more, htext, -⟩ := hexText_two n
  refine ⟨16 * d + e, by omega, more ++ rest, ?_⟩
  rw [htext, List.cons_append, List.cons_append, scanHex_two (hexDigit?_hexChar hd) (hexDigit?_hexChar he)]

/-- A small number is read back. -/
theorem scanHex_small {x : Int32} (h : Small x) :
    ∃ v : Nat, scanHex 2 (hexText 2 x.toUInt32.toNat ++ rest) = .ok (v : Int) rest ∧ Int32.ofInt v = x := by
  obtain ⟨hlt, hx⟩ := h.eq_ofInt
  exact ⟨_, scanHex_hexText rest hlt, hx⟩

theorem Small.and_eq_zero {x : Int32} (h : Small x) : x &&& 0x80 = 0 := by
  obtain ⟨hlt, hx⟩ := h.eq_ofInt
  rw [← hx]
  exact (small_ofInt hlt).mp (hx.symm ▸ h)

end Numbers

/-! ## What is read -/

section Reading

variable {flags version size : Int32} {s t : List UInt8}

theorem scanWord_self_iff : (∃ t, scanWord none s = .ok s t) ↔ s ≠ [] ∧ ∀ c ∈ s, isSpace c = false := by
  rw [scanWord_none]
  constructor
  · rintro ⟨t, h⟩
    split at h
    · cases h
    · rename_i hne
      have hword : firstWord s = s := (Scan.ok.inj h).1
      refine ⟨?_, fun c hc => isSpace_of_mem_firstWord (s := s) (hword.symm ▸ hc)⟩
      rintro rfl
      exact hne rfl
  · rintro ⟨hne, hspace⟩
    have hskip : skipSpace s ≠ [] := by
      intro h
      obtain ⟨c, hc⟩ := List.exists_mem_of_ne_nil s hne
      have := skipSpace_eq_nil_iff.mp h c hc
      rw [hspace c hc] at this
      cases this
    exact ⟨_, by rw [if_neg hskip, firstWord_eq_self hspace]⟩

/-- What the second half of a reminder must be. -/
theorem parseRest_eq_ok_iff {f : Int32} : parseRest flags s = .ok (f, version, size, t) ↔
    f = flags ∧ ∃ x y s₁ s₂ s₃, scanHex 2 s = .ok x s₁ ∧ scanHex 2 s₁ = .ok y s₂ ∧ scanWord none s₂ = .ok t s₃ ∧
      Int32.ofInt x = size ∧ Int32.ofInt y = version ∧ size &&& 0x80 = 0 ∧ version &&& 0x80 = 0 := by
  constructor
  · intro h
    rw [parseRest] at h
    split at h
    · rename_i x s₁ hsize
      split at h
      · rename_i y s₂ hversion
        split at h
        · rename_i u s₃ hword
          split at h
          · cases h
          · rename_i hbits
            cases h
            rw [not_or, not_ne_iff, not_ne_iff] at hbits
            exact ⟨rfl, x, y, s₁, s₂, s₃, hsize, hversion, hword, rfl, rfl, hbits⟩
        · cases h
      · cases h
    · cases h
  · rintro ⟨rfl, x, y, s₁, s₂, s₃, hsize, hversion, hword, rfl, rfl, hbits⟩
    simp only [parseRest, hsize, hversion, hword, hbits.1, hbits.2, ne_eq, not_true_eq_false, or_self, if_false]

/-- The second half of a reminder is read back. -/
theorem parseRest_iff :
    parseRest flags (hexText 2 size.toUInt32.toNat ++ (hexText 2 version.toUInt32.toNat ++ s)) =
        .ok (flags, version, size, s) ↔
      Small version ∧ Small size ∧ s ≠ [] ∧ ∀ c ∈ s, isSpace c = false := by
  rw [parseRest_eq_ok_iff]
  constructor
  · rintro ⟨-, x, y, s₁, s₂, s₃, hscan, hscan', hword, hx, hy, hbit, hbit'⟩
    obtain ⟨v, hv, more, hread⟩ := exists_scanHex (hexText 2 version.toUInt32.toNat ++ s) size.toUInt32.toNat
    obtain ⟨rfl, -⟩ := Scan.ok.inj (hread.symm.trans hscan)
    have hsize : Small size := hx ▸ (small_ofInt hv).mpr (hx.symm ▸ hbit)
    obtain ⟨_, hread, -⟩ := scanHex_small (hexText 2 version.toUInt32.toNat ++ s) hsize
    obtain ⟨-, rfl⟩ := Scan.ok.inj (hread.symm.trans hscan)
    obtain ⟨w, hw, more, hread⟩ := exists_scanHex s version.toUInt32.toNat
    obtain ⟨rfl, -⟩ := Scan.ok.inj (hread.symm.trans hscan')
    have hversion : Small version := hy ▸ (small_ofInt hw).mpr (hy.symm ▸ hbit')
    obtain ⟨_, hread, -⟩ := scanHex_small s hversion
    obtain ⟨-, rfl⟩ := Scan.ok.inj (hread.symm.trans hscan')
    exact ⟨hversion, hsize, scanWord_self_iff.mp ⟨s₃, hword⟩⟩
  · rintro ⟨hversion, hsize, hs⟩
    obtain ⟨v, hread, hv⟩ := scanHex_small (hexText 2 version.toUInt32.toNat ++ s) hsize
    obtain ⟨w, hread', hw⟩ := scanHex_small s hversion
    obtain ⟨t, hword⟩ := scanWord_self_iff.mpr hs
    exact ⟨rfl, v, w, _, s, t, hread, hread', hword, hv, hw, hsize.and_eq_zero, hversion.and_eq_zero⟩

/-- What a reminder must be, with the offsets of its parts. -/
theorem parseReminder_eq_ok_iff : parseReminder s = some (.ok (flags, version, size, t)) ↔
    ∃ w r x r', scanWord (some 6) s = .ok w r ∧ scanHex 2 r = .ok x r' ∧ Int32.ofInt x = flags ∧ flags &&& 0x80 = 0 ∧
      if flags &&& FLAG_EXPLICIT_VERSION ≠ 0 then
        ∃ u y u' u'', behind s 8 = some u ∧ scanHex 2 u = .ok y u' ∧ Int32.ofInt y = 0 ∧ behind s 10 = some u'' ∧
          parseRest flags u'' = .ok (flags, version, size, t)
      else ∃ u, behind s 8 = some u ∧ parseRest flags u = .ok (flags, version, size, t) := by
  constructor
  · intro h
    rw [parseReminder] at h
    split at h
    · rename_i w r hw
      split at h
      · rename_i x r' hx
        dsimp only at h
        split at h
        · cases h
        · rename_i hbit
          rw [not_ne_iff] at hbit
          split at h
          · rename_i hexplicit
            obtain ⟨u, hu, h⟩ := Option.bind_eq_some_iff.mp h
            split at h
            · rename_i y u' hy
              split at h
              · cases h
              · rename_i hzero
                obtain ⟨u'', hu'', h⟩ := Option.map_eq_some_iff.mp h
                obtain rfl := (parseRest_eq_ok_iff.mp h).1
                refine ⟨w, r, x, r', hw, hx, rfl, hbit, ?_⟩
                rw [if_pos hexplicit]
                exact ⟨u, y, u', u'', hu, hy, not_ne_iff.mp hzero, hu'', h⟩
            · cases h
          · rename_i hexplicit
            obtain ⟨u, hu, h⟩ := Option.map_eq_some_iff.mp h
            obtain rfl := (parseRest_eq_ok_iff.mp h).1
            refine ⟨w, r, x, r', hw, hx, rfl, hbit, ?_⟩
            rw [if_neg hexplicit]
            exact ⟨u, hu, h⟩
      · cases h
    · cases h
  · rintro ⟨w, r, x, r', hw, hx, rfl, hbit, h⟩
    simp only [parseReminder, hw, hx, hbit, ne_eq, not_true_eq_false, if_false]
    split at h
    · rename_i hexplicit
      obtain ⟨u, y, u', u'', hu, hy, hzero, hu'', hrest⟩ := h
      simp only [if_pos hexplicit, hu, Option.bind_some, hy, hzero, not_true_eq_false, if_false, hu'', Option.map_some,
        hrest]
    · rename_i hexplicit
      obtain ⟨u, hu, hrest⟩ := h
      rw [if_neg hexplicit, hu, Option.map_some, hrest]

end Reading

/-! ## Reminders that are printed -/

section Printing

variable (sha256 : List UInt8 → Vector UInt8 32) (d : Data)

/-- The quick check is a word of six characters. -/
theorem length_qc : (calculateQuickCheck sha256 d).qc.length = 6 := by
  simp [calculateQuickCheck, processStringsFast, List.length_flatMap]

theorem isSpace_of_mem_qc {c : UInt8} (hc : c ∈ (calculateQuickCheck sha256 d).qc) : isSpace c = false := by
  obtain ⟨b, -, hc⟩ := List.mem_flatMap.mp hc
  have hb := b.toNat_lt
  have hdigit : ∃ e < 16, c = digitChar e := by
    rw [hexByte, List.mem_cons, List.mem_singleton] at hc
    rcases hc with rfl | rfl
    · exact ⟨_, by omega, rfl⟩
    · exact ⟨_, by omega, rfl⟩
  obtain ⟨e, he, rfl⟩ := hdigit
  exact (of_hexDigit? (hexDigit?_digitChar he)).1

/-- Two texts of known lengths are in front. -/
theorem behind_append {u v w : List UInt8} {off : Nat} (h : u.length + v.length = off) :
    behind (u ++ (v ++ w)) off = some w := by
  rw [behind, ← List.append_assoc, if_pos (by rw [List.length_append, List.length_append]; omega),
    List.drop_left' (by rw [List.length_append]; omega)]

theorem length_hexText_small {x : Int32} (h : Small x) : (hexText 2 x.toUInt32.toNat).length = 2 := by
  have hlt := h.eq_ofInt.1
  exact length_hexText (by omega)

/-- A printed reminder is read back exactly if its numbers have two digits and their highest bits are not set, and
its code is a word. Then the password is that for which it was printed, whatever the plugins are. -/
theorem reminder_iff (s : List UInt8) (flags version size : Int32) :
    (parseReminder (reminderText (calculateQuickCheck sha256 d) s flags version size) =
        some (.ok (flags, version, size, s)) ↔
      Small flags ∧ Small version ∧ Small size ∧ s ≠ [] ∧ ∀ c ∈ s, isSpace c = false) ∧
    (Small flags ∧ Small version ∧ Small size ∧ s ≠ [] ∧ (∀ c ∈ s, isSpace c = false) →
      ∀ (c : Crypto) (rounds : Nat),
        generatePasswordFromReminder c (calculateQuickCheck sha256 d)
            (reminderText (calculateQuickCheck sha256 d) s flags version size) rounds =
          (generatePassword c (calculateQuickCheck sha256 d) s flags version size false rounds).map .ok) := by
  set qc := (calculateQuickCheck sha256 d).qc with hqc
  have hlen : qc.length = 6 := length_qc sha256 d
  set x := hexText 2 flags.toUInt32.toNat with hx
  -- What comes behind the flags.
  let tail := hexText 2 size.toUInt32.toNat ++ (hexText 2 version.toUInt32.toNat ++ s)
  let rest := if flags &&& FLAG_EXPLICIT_VERSION ≠ 0 then hexText 2 0 ++ tail else tail
  have htext : reminderText (calculateQuickCheck sha256 d) s flags version size = qc ++ (x ++ rest) := by
    simp only [reminderText, rest, tail, ← hqc, ← hx]
    split
    · simp only [List.append_assoc]
      rfl
    · simp only [List.append_assoc]
  have height (hsmall : Small flags) : behind (qc ++ (x ++ rest)) 8 = some rest :=
    behind_append (by rw [hlen, hx, length_hexText_small hsmall])
  have hten (hsmall : Small flags) (hrest : rest = hexText 2 0 ++ tail) :
      behind (qc ++ (x ++ rest)) 10 = some tail := by
    rw [hrest, ← List.append_assoc qc]
    exact behind_append (by rw [List.length_append, hlen, hx, length_hexText_small hsmall]; rfl)
  have hword : scanWord (some 6) (qc ++ (x ++ rest)) = .ok qc (x ++ rest) :=
    scanWord_append hlen (by decide) fun c hc => isSpace_of_mem_qc sha256 d hc
  have hiff : parseReminder (qc ++ (x ++ rest)) = some (.ok (flags, version, size, s)) ↔
      Small flags ∧ parseRest flags tail = .ok (flags, version, size, s) := by
    rw [parseReminder_eq_ok_iff]
    constructor
    · rintro ⟨w, r, y, r', hscan, hflags, hy, hbit, h⟩
      obtain ⟨rfl, rfl⟩ := Scan.ok.inj (hword.symm.trans hscan)
      obtain ⟨v, hv, more, hread⟩ := exists_scanHex rest flags.toUInt32.toNat
      obtain ⟨rfl, -⟩ := Scan.ok.inj (hread.symm.trans hflags)
      have hsmall : Small flags := hy ▸ (small_ofInt hv).mpr (hy.symm ▸ hbit)
      refine ⟨hsmall, ?_⟩
      rw [height hsmall] at h
      split at h
      · rename_i hexplicit
        obtain ⟨u, y, u', u'', -, -, -, hbehind, h⟩ := h
        obtain rfl := Option.some.inj ((hten hsmall (if_pos hexplicit)).symm.trans hbehind)
        exact h
      · rename_i hexplicit
        obtain ⟨u, hu, h⟩ := h
        have hrest : rest = tail := if_neg hexplicit
        obtain rfl := Option.some.inj hu
        rw [← hrest]
        exact h
    · rintro ⟨hsmall, h⟩
      obtain ⟨v, hread, hv⟩ := scanHex_small rest hsmall
      refine ⟨qc, x ++ rest, v, rest, hword, hread, hv, hsmall.and_eq_zero, ?_⟩
      split
      · rename_i hexplicit
        have hrest : rest = hexText 2 0 ++ tail := if_pos hexplicit
        exact ⟨rest, 0, tail, tail, height hsmall, hrest ▸ scanHex_hexText tail (by decide), rfl,
          hten hsmall hrest, h⟩
      · rename_i hexplicit
        have hrest : rest = tail := if_neg hexplicit
        exact ⟨rest, height hsmall, hrest ▸ h⟩
  have hparse := hiff.trans (and_congr_right' parseRest_iff)
  rw [htext]
  refine ⟨hparse, fun hcond c rounds => ?_⟩
  rw [generatePasswordFromReminder, hparse.mpr hcond]
  simp only [Option.bind_eq_bind, Option.bind_some, Option.pure_def, Option.map_eq_bind, Function.comp_def]

end Printing

end Drew.Daniel
